import PureJs.Program.Order
import PureJs.Proofs.Steps
import Mathlib.Data.List.Nodup

/-!
What an ordering of modules gives. While it grows, the latest module stands in front, and every
module in it has all that it imports behind it; turned round, every module follows its imports.
-/

namespace PureJs.Module

variable {modules : List Module}

def Arranged (modules : List Module) : List Module → Prop
  | [] => True
  | m :: earlier =>
    m ∈ modules ∧ m.name ∉ earlier.map Module.name ∧
      (∀ entry ∈ m.imports, ∀ imported, lookup? modules entry.module = some imported →
        imported.name ∈ earlier.map Module.name) ∧
      Arranged modules earlier

/-- What arranging does to the modules that are in order: it puts others in front of them, of which
none stands on the path of imports that led here. -/
structure Arranges (modules : List Module) (path : List String) (before after : List Module) :
    Prop where
  arranged : Arranged modules after
  keeps : before <:+ after
  fresh : ∀ m ∈ after, m ∈ before ∨ m.name ∉ path

theorem Arranges.refl {path : List String} {ordered : List Module}
    (arranged : Arranged modules ordered) : Arranges modules path ordered ordered :=
  ⟨arranged, List.suffix_rfl, fun _ member => Or.inl member⟩

theorem Arranges.trans {path : List String} {first second third : List Module}
    (one : Arranges modules path first second) (two : Arranges modules path second third) :
    Arranges modules path first third := by
  refine ⟨two.arranged, one.keeps.trans two.keeps, ?_⟩
  intro m member
  rcases two.fresh m member with inside | off
  · exact one.fresh m inside
  · exact Or.inr off

theorem Arranges.names {path : List String} {before after : List Module} {name : String}
    (arranges : Arranges modules path before after) (member : name ∈ before.map Module.name) :
    name ∈ after.map Module.name := by
  obtain ⟨m, inside, same⟩ := List.mem_map.mp member
  exact List.mem_map.mpr ⟨m, arranges.keeps.subset inside, same⟩

theorem lookup_member {name : String} {m : Module} (found : lookup? modules name = some m) :
    m ∈ modules ∧ m.name = name := by
  have named := List.find?_some found
  exact ⟨List.mem_reverse.mp (List.mem_of_find?_eq_some found), by simpa using named⟩

def follow (modules : List Module) (fuel : Nat) (path : List String) (ordered : List Module)
    (entry : Import) : Except ImportCycle (List Module) :=
  match lookup? modules entry.module with
  | none => .ok ordered
  | some imported => arrange modules fuel path ordered imported

theorem arrange_known (fuel : Nat) (path : List String) {ordered : List Module} {m : Module}
    (known : m.name ∈ ordered.map Module.name) :
    arrange modules fuel path ordered m = .ok ordered := by
  unfold arrange
  rw [if_pos known]

theorem arrange_new (fuel : Nat) {path : List String} {ordered : List Module} {m : Module}
    (new : m.name ∉ ordered.map Module.name) (off : m.name ∉ path) :
    arrange modules (fuel + 1) path ordered m =
      m.imports.foldlM (follow modules fuel (path ++ [m.name])) ordered >>=
        fun ordered => pure (m :: ordered) := by
  rw [arrange, if_neg new, if_neg off]
  rfl

theorem arrange_gives {fuel : Nat} {path : List String} {before after : List Module} {m : Module}
    (result : arrange modules fuel path before m = .ok after) :
    (m.name ∈ before.map Module.name ∧ after = before) ∨
      (m.name ∉ before.map Module.name ∧ m.name ∉ path ∧ ∃ less middle, fuel = less + 1 ∧
        m.imports.foldlM (follow modules less (path ++ [m.name])) before = .ok middle ∧
        after = m :: middle) := by
  by_cases known : m.name ∈ before.map Module.name
  · rw [arrange_known _ _ known] at result
    cases result
    exact Or.inl ⟨known, rfl⟩
  · by_cases on : m.name ∈ path
    · unfold arrange at result
      rw [if_neg known, if_pos on] at result
      cases result
    · cases fuel with
      | zero =>
        unfold arrange at result
        rw [if_neg known, if_neg on] at result
        cases result
      | succ less =>
        rw [arrange_new less known on] at result
        obtain ⟨middle, folded, last⟩ := bind_gives result
        cases last
        exact Or.inr ⟨known, on, less, middle, rfl, folded, rfl⟩

theorem follow_known (fuel : Nat) (path : List String) {ordered : List Module} {entry : Import}
    (known : entry.module ∈ ordered.map Module.name) :
    follow modules fuel path ordered entry = .ok ordered := by
  unfold follow
  cases found : lookup? modules entry.module with
  | none => rfl
  | some imported => exact arrange_known _ _ ((lookup_member found).2.symm ▸ known)

theorem lookup_distinct (distinct : (modules.map Module.name).Nodup) {m : Module}
    (inside : m ∈ modules) : lookup? modules m.name = some m := by
  cases found : lookup? modules m.name with
  | none =>
    have away := List.find?_eq_none.mp found m (List.mem_reverse.mpr inside)
    simp at away
  | some other =>
    obtain ⟨there, same⟩ := lookup_member found
    rw [List.inj_on_of_nodup_map distinct there inside same]

theorem fold_arranges {α : Type} (path : List String) (asks : α → List String)
    {step : List Module → α → Except ImportCycle (List Module)} {entries : List α}
    (each : ∀ entry ∈ entries, ∀ before after, Arranged modules before →
      step before entry = .ok after →
      Arranges modules path before after ∧ asks entry ⊆ after.map Module.name)
    {before after : List Module} (arranged : Arranged modules before)
    (folded : entries.foldlM step before = .ok after) :
    Arranges modules path before after ∧
      ∀ entry ∈ entries, asks entry ⊆ after.map Module.name := by
  induction entries generalizing before with
  | nil =>
    cases folded
    exact ⟨Arranges.refl arranged, fun entry member => absurd member List.not_mem_nil⟩
  | cons entry rest ih =>
    rw [List.foldlM_cons] at folded
    obtain ⟨middle, first, others⟩ := bind_gives folded
    obtain ⟨here, reached⟩ := each entry List.mem_cons_self before middle arranged first
    obtain ⟨later, all⟩ := ih (fun other member => each other (List.mem_cons_of_mem _ member))
      here.arranged others
    refine ⟨here.trans later, ?_⟩
    intro other member name asked
    rcases List.mem_cons.mp member with same | behind
    · exact later.names (reached (same ▸ asked))
    · exact all other behind asked

theorem arrange_arranges (fuel : Nat) {path : List String} {before after : List Module}
    {m : Module} (arranged : Arranged modules before) (inside : m ∈ modules)
    (result : arrange modules fuel path before m = .ok after) :
    Arranges modules path before after ∧ m.name ∈ after.map Module.name := by
  induction fuel generalizing path before m after with
  | zero =>
    obtain ⟨known, rfl⟩ | ⟨_, _, less, _, none, _⟩ := arrange_gives result
    · exact ⟨Arranges.refl arranged, known⟩
    · cases none
  | succ fuel ih =>
    obtain ⟨known, rfl⟩ | ⟨new, off, less, middle, same, folded, rfl⟩ := arrange_gives result
    · exact ⟨Arranges.refl arranged, known⟩
    · cases same
      have steps := fold_arranges (path ++ [m.name])
        (fun entry => ((lookup? modules entry.module).map Module.name).toList)
        (by
          intro entry _ earlier later sound step
          unfold follow at step
          cases found : lookup? modules entry.module with
          | none =>
            rw [found] at step
            cases step
            exact ⟨Arranges.refl sound, by simp⟩
          | some imported =>
            rw [found] at step
            obtain ⟨grows, reached⟩ := ih sound (lookup_member found).1 step
            exact ⟨grows, by simpa using reached⟩) arranged folded
      obtain ⟨grows, reached⟩ := steps
      have alone : m.name ∉ middle.map Module.name := by
        intro member
        obtain ⟨other, there, same⟩ := List.mem_map.mp member
        rcases grows.fresh other there with old | away
        · exact new (List.mem_map.mpr ⟨other, old, same⟩)
        · exact away (by simp [same])
      have imports : ∀ entry ∈ m.imports, ∀ imported,
          lookup? modules entry.module = some imported →
          imported.name ∈ middle.map Module.name := by
        intro entry member imported found
        exact reached entry member (by simp [found])
      refine ⟨⟨⟨inside, alone, imports, grows.arranged⟩,
        grows.keeps.trans (List.suffix_cons m middle), ?_⟩, List.mem_cons_self⟩
      intro other member
      rcases List.mem_cons.mp member with same | there
      · exact Or.inr (same ▸ off)
      · rcases grows.fresh other there with old | away
        · exact Or.inl old
        · exact Or.inr (fun on => away (List.mem_append_left _ on))

theorem arranged_distinct {ordered : List Module} (arranged : Arranged modules ordered) :
    (ordered.map Module.name).Nodup := by
  induction ordered with
  | nil => exact List.nodup_nil
  | cons m earlier ih => exact List.nodup_cons.mpr ⟨arranged.2.1, ih arranged.2.2.2⟩

theorem arranged_member {ordered : List Module} (arranged : Arranged modules ordered) {m : Module}
    (member : m ∈ ordered) : m ∈ modules := by
  induction ordered with
  | nil => exact absurd member List.not_mem_nil
  | cons first earlier ih =>
    rcases List.mem_cons.mp member with same | behind
    · exact same ▸ arranged.1
    · exact ih arranged.2.2.2 behind

theorem arranged_imports {latest earlier : List Module} {m : Module}
    (arranged : Arranged modules (latest ++ m :: earlier)) :
    ∀ entry ∈ m.imports, ∀ imported, lookup? modules entry.module = some imported →
      imported.name ∈ earlier.map Module.name := by
  induction latest with
  | nil => exact arranged.2.2.1
  | cons first rest ih => exact ih arranged.2.2.2

/-- A list with one module of each name, in which each module follows what it imports. -/
structure Sorted (modules sorted : List Module) : Prop where
  distinct : (sorted.map Module.name).Nodup
  members : ∀ m ∈ sorted, m ∈ modules
  complete : ∀ m ∈ modules, m.name ∈ sorted.map Module.name
  follows : ∀ before m after, sorted = before ++ m :: after → ∀ entry ∈ m.imports,
    ∀ imported, lookup? modules entry.module = some imported →
      imported.name ∈ before.map Module.name

theorem sort_sorted {sorted : List Module} (result : sort modules = .ok sorted) :
    Sorted modules sorted := by
  obtain ⟨ordered, folded, last⟩ := bind_gives result
  cases last
  have none : Arranged modules [] := trivial
  obtain ⟨grows, reached⟩ := fold_arranges [] (fun m => [m.name])
    (by
      intro m inside before after sound step
      obtain ⟨grows, there⟩ := arrange_arranges _ sound inside step
      exact ⟨grows, by simpa using there⟩) none folded
  refine ⟨?_, ?_, ?_, ?_⟩
  · rw [List.map_reverse]
    exact List.nodup_reverse.mpr (arranged_distinct grows.arranged)
  · intro m member
    exact arranged_member grows.arranged (List.mem_reverse.mp member)
  · intro m member
    have there := reached m member List.mem_cons_self
    simpa using there
  · intro before m after same
    have split : ordered = after.reverse ++ m :: before.reverse := by
      rw [← List.reverse_reverse ordered, same]
      simp
    have imports := arranged_imports (split ▸ grows.arranged)
    simpa using imports

end PureJs.Module
