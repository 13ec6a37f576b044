import PureJs.Proofs.Program.ImportLists
import PureJs.Proofs.Program.Sorting

/-!
The order of modules of which all import the same one. That one imports nothing, as imports would
lead back to it, so it comes first; and once it is there, its imports change nothing, wherever they
stand in the lists of the others.
-/

namespace PureJs.Module

def Rooted (root : String) (modules : List Module) : Prop :=
  ∀ m ∈ modules, m.name ≠ root → root ∈ m.importedModules

section Growing

variable {modules : List Module}

theorem arrange_suffix {fuel : Nat} {path : List String} {before after : List Module} {m : Module}
    (result : arrange modules fuel path before m = .ok after) : before <:+ after := by
  induction fuel generalizing path before m after with
  | zero =>
    obtain ⟨_, rfl⟩ | ⟨_, _, less, _, none, _⟩ := arrange_gives result
    · exact List.suffix_rfl
    · cases none
  | succ fuel ih =>
    obtain ⟨_, rfl⟩ | ⟨_, _, less, middle, same, folded, rfl⟩ := arrange_gives result
    · exact List.suffix_rfl
    · cases same
      refine (fold_suffix ?_ folded).trans (List.suffix_cons m middle)
      intro entry _ start stop step
      unfold follow at step
      split at step
      · cases step
        exact List.suffix_rfl
      · exact ih step

theorem follow_suffix {fuel : Nat} {path : List String} {before after : List Module}
    {entry : Import} (result : follow modules fuel path before entry = .ok after) :
    before <:+ after := by
  unfold follow at result
  split at result
  · cases result
    exact List.suffix_rfl
  · exact arrange_suffix result

end Growing

section Known

variable {modules : List Module} {root : String}

def besideRoot (root : String) (imports : List Import) : List Import :=
  imports.filter (·.module ≠ root)

theorem fold_beside_root {fuel : Nat} {path : List String} {ordered : List Module}
    (known : root ∈ ordered.map Module.name) (imports : List Import) :
    imports.foldlM (follow modules fuel path) ordered =
      (besideRoot root imports).foldlM (follow modules fuel path) ordered := by
  induction imports generalizing ordered with
  | nil => rfl
  | cons entry rest ih =>
    by_cases same : entry.module = root
    · have passed : besideRoot root (entry :: rest) = besideRoot root rest :=
        List.filter_cons_of_neg (by simpa using same)
      rw [passed, List.foldlM_cons, follow_known _ _ (same ▸ known)]
      exact ih known
    · have kept : besideRoot root (entry :: rest) = entry :: besideRoot root rest :=
        List.filter_cons_of_pos (by simpa using same)
      rw [kept, List.foldlM_cons, List.foldlM_cons]
      cases result : follow modules fuel path ordered entry with
      | error cycle => rfl
      | ok middle =>
        have grows := (follow_suffix result).sublist.map Module.name
        exact ih (grows.subset known)

variable {change : Module → Module} (relabels : Relabels change)
  (beside : ∀ m ∈ modules, besideRoot root (change m).imports = besideRoot root m.imports)
include relabels beside

theorem arrange_beside_root {fuel : Nat} {path : List String} {before after : List Module}
    {m : Module} (known : root ∈ before.map Module.name) (inside : m ∈ modules)
    (result : arrange modules fuel path before m = .ok after) :
    arrange (modules.map change) fuel path (before.map change) (change m) =
      .ok (after.map change) := by
  have names := relabels.names before
  have named := relabels.name m
  induction fuel generalizing path before m after with
  | zero =>
    obtain ⟨old, rfl⟩ | ⟨_, _, less, _, none, _⟩ := arrange_gives result
    · exact arrange_known _ _ (names ▸ named ▸ old)
    · cases none
  | succ fuel ih =>
    obtain ⟨old, rfl⟩ | ⟨new, off, less, middle, same, folded, rfl⟩ := arrange_gives result
    · exact arrange_known _ _ (names ▸ named ▸ old)
    · cases same
      rw [fold_beside_root known] at folded
      rw [arrange_new fuel (names ▸ named ▸ new) (named ▸ off), named,
        fold_beside_root (names ▸ known), beside m inside]
      rw [fold_goes (List.map change) (fun ordered => root ∈ ordered.map Module.name) ?_ known
        folded]
      · rfl
      · intro entry _ start stop there step
        have grows := (follow_suffix step).sublist.map Module.name
        refine ⟨grows.subset there, ?_⟩
        unfold follow at step ⊢
        rw [relabels.lookup?]
        cases found : lookup? modules entry.module with
        | none =>
          rw [found] at step
          cases step
          rfl
        | some imported =>
          rw [found] at step
          exact ih there (lookup_member found).1 step (relabels.names start)
            (relabels.name imported)

end Known

section First

variable {modules : List Module} {root : Module} (rooted : Rooted root.name modules)
  (found : lookup? modules root.name = some root) (bare : root.imports = [])
include rooted found bare

/-- What is arranged in front of nothing is arranged behind the root alike: the way down the imports
ends at the root. -/
theorem arrange_behind_root (distinct : (modules.map Module.name).Nodup) {fuel : Nat}
    {path : List String} {after : List Module} {m : Module} (inside : m ∈ modules)
    (off : root.name ∉ path) (result : arrange modules fuel path [] m = .ok after) :
    arrange modules fuel path [root] m = .ok after := by
  induction fuel generalizing path m after with
  | zero =>
    obtain ⟨none, _⟩ | ⟨_, _, less, _, none, _⟩ := arrange_gives result
    · exact absurd none List.not_mem_nil
    · cases none
  | succ fuel ih =>
    obtain ⟨none, _⟩ | ⟨_, away, less, middle, same, folded, rfl⟩ := arrange_gives result
    · exact absurd none List.not_mem_nil
    cases same
    by_cases own : m.name = root.name
    · have same : m = root :=
        List.inj_on_of_nodup_map distinct inside (lookup_member found).1 own
      subst same
      rw [bare] at folded
      cases folded
      exact arrange_known _ _ List.mem_cons_self
    · have down : ∀ imports : List Import, root.name ∈ imports.map Import.module →
          imports.foldlM (follow modules fuel (path ++ [m.name])) [] = .ok middle →
          imports.foldlM (follow modules fuel (path ++ [m.name])) [root] = .ok middle := by
        intro imports listed folded
        induction imports with
        | nil => exact absurd listed List.not_mem_nil
        | cons entry rest again =>
          rw [List.foldlM_cons] at folded ⊢
          obtain ⟨next, first, others⟩ := bind_gives folded
          unfold follow at first ⊢
          cases there : lookup? modules entry.module with
          | none =>
            rw [there] at first
            cases first
            have later : root.name ∈ rest.map Import.module := by
              rcases List.mem_cons.mp listed with here | later
              · rw [here, there] at found
                cases found
              · exact later
            exact again later others
          | some imported =>
            rw [there] at first
            have on : root.name ∉ path ++ [m.name] := by
              simp [off, Ne.symm own]
            dsimp only
            rw [ih (lookup_member there).1 on first]
            exact others
      rw [arrange_new fuel (by simpa using own) away, down _ (rooted m inside own) folded]
      rfl

theorem sort_behind_root (distinct : (modules.map Module.name).Nodup)
    {ordered : List Module}
    (folded : modules.foldlM (arrange modules modules.length []) [] = .ok ordered) :
    modules.foldlM (arrange modules modules.length []) [root] = .ok ordered := by
  have some : modules ≠ [] := List.ne_nil_of_mem (lookup_member found).1
  have start : ∀ entries : List Module, entries ≠ [] → entries ⊆ modules →
      entries.foldlM (arrange modules modules.length []) [] = .ok ordered →
      entries.foldlM (arrange modules modules.length []) [root] = .ok ordered := by
    intro entries some inside folded
    cases entries with
    | nil => exact absurd rfl some
    | cons m rest =>
      rw [List.foldlM_cons] at folded ⊢
      obtain ⟨middle, first, others⟩ := bind_gives folded
      rw [arrange_behind_root rooted found bare distinct (inside List.mem_cons_self)
        List.not_mem_nil first]
      exact others
  exact start modules some (List.Subset.refl _) folded

end First

section Rooted

variable {modules : List Module} {root : String}

theorem root_imports_nothing (rooted : Rooted root modules)
    (distinct : (modules.map Module.name).Nodup) (known : unknownImports modules = [])
    {sorted : List Module} (order : sort modules = .ok sorted) {m : Module} (inside : m ∈ modules)
    (named : m.name = root) : m.imports = [] := by
  have acyclic := (sort_ok_iff distinct).mp ⟨sorted, order⟩ root
  have listed : root ∈ modules.map Module.name := named ▸ List.mem_map_of_mem inside
  refine List.eq_nil_iff_forall_not_mem.mpr fun entry member => acyclic ?_
  have there := unknown_imports_nil_iff.mp known m inside entry member
  have out : ImportsWithin modules root entry.module :=
    ⟨m, inside, named, List.mem_map_of_mem member, there⟩
  by_cases same : entry.module = root
  · exact .single (same ▸ out)
  · obtain ⟨target, present, called⟩ := List.mem_map.mp there
    have back : root ∈ target.importedModules := rooted target present (called ▸ same)
    exact .head out (.single ⟨target, present, called, back, listed⟩)

/-- Modules that all import the root are put into the same order, wherever in their lists of imports
that of the root stands. -/
theorem sort_reimported {change : Module → Module} (reimports : Reimports modules change)
    (beside : ∀ m ∈ modules, besideRoot root (change m).imports = besideRoot root m.imports)
    (rooted : Rooted root modules) (present : root ∈ modules.map Module.name)
    (distinct : (modules.map Module.name).Nodup) (known : unknownImports modules = [])
    {sorted resorted : List Module} (order : sort modules = .ok sorted)
    (reorder : sort (modules.map change) = .ok resorted) : resorted = sorted.map change := by
  obtain ⟨top, inside, rfl⟩ := List.mem_map.mp present
  have names : ((modules.map change).map Module.name).Nodup := reimports.names modules ▸ distinct
  have listed : change top ∈ modules.map change := List.mem_map_of_mem inside
  have called := reimports.name top
  have again : Rooted top.name (modules.map change) := by
    refine List.forall_mem_map.mpr fun m member other => ?_
    rw [reimports.name] at other
    exact (reimports.imports m member top.name).mpr (rooted m member other)
  have bare := root_imports_nothing rooted distinct known order inside rfl
  have rebare := root_imports_nothing again names (reimports.unknown_imports_nil_iff.mpr known)
    reorder listed called
  obtain ⟨ordered, folded, last⟩ := bind_gives order
  cases last
  obtain ⟨reordered, refolded, last⟩ := bind_gives reorder
  cases last
  have first := sort_behind_root rooted (lookup_distinct distinct inside) bare distinct folded
  have above : Rooted (change top).name (modules.map change) := called.symm ▸ again
  have second := sort_behind_root above (lookup_distinct names listed) rebare names refolded
  have mapped : (modules.map change).foldlM
      (arrange (modules.map change) (modules.map change).length []) [change top] =
        .ok (ordered.map change) := by
    rw [List.foldlM_map, List.length_map]
    have start : top.name ∈ [top].map Module.name := List.mem_cons_self
    refine fold_goes (List.map change) (fun ordered => top.name ∈ ordered.map Module.name) ?_ start
      first
    intro m member before after there step
    have grows := (arrange_suffix step).sublist.map Module.name
    exact ⟨grows.subset there, arrange_beside_root reimports.toRelabels beside there member step⟩
  cases mapped.symm.trans second
  exact List.map_reverse.symm

end Rooted

end PureJs.Module
