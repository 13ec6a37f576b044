import PureJs.Program.Options
import PureJs.Proofs.Program.Cycles

/-!
Ordering modules with marks on them. A module is marked when it is come to and when it is done with,
and a marked one is looked up on the path of imports that leads back to it. The look-up always
succeeds, and no path is longer than the list of modules.
-/

namespace PureJs.Fallible

/-- Why a step of the compiler has no result. All but a refused program would be its own faults. -/
inductive Fault
  | refused (rejection : Rejection)
  | index
  | search
  | key (key : String × String)
  | digits
  | depth

inductive Mark
  | visiting
  | done

structure Progress where
  mark? : String → Option Mark
  ordered : List Module

def Progress.mark (name : String) (mark : Mark) (progress : Progress) : Progress :=
  { progress with mark? := Function.update progress.mark? name (some mark) }

def circle (options : Options) (cycle : Module.ImportCycle) : Fault :=
  .refused ⟨[cycle.finding], options.verboseErrors⟩

/-- Puts what `m` imports and then `m` itself behind the modules that are done with. `path` names
the modules that led here. -/
def visit (options : Options) (modules : List Module) (fuel : Nat) (path : List String)
    (progress : Progress) (m : Module) : Except Fault Progress :=
  match progress.mark? m.name with
  | some .done => .ok progress
  | some .visiting =>
    match path.idxOf? m.name with
    | none => .error .search
    | some start => .error (circle options ⟨path.drop start ++ [m.name], m⟩)
  | none =>
    match fuel with
    | 0 => .error .depth
    | fuel + 1 => do
      let progress ← m.imports.foldlM (fun progress entry =>
        match Module.lookup? modules entry.module with
        | none => .ok progress
        | some imported => visit options modules fuel (path ++ [m.name]) progress imported)
        (progress.mark m.name .visiting)
      pure { progress.mark m.name .done with ordered := m :: progress.ordered }

def sort (options : Options) (modules : List Module) : Except Fault (List Module) := do
  let progress ← modules.foldlM (visit options modules modules.length []) ⟨fun _ => none, []⟩
  pure progress.ordered.reverse

def along (path : List String) (ordered : List Module) : Progress where
  mark? name :=
    if name ∈ ordered.map Module.name then some .done
    else if name ∈ path then some .visiting
    else none
  ordered := ordered

section Marks

variable {path : List String} {ordered : List Module} {m : Module}

theorem along_mark (name : String) :
    (along path ordered).mark? name =
      if name ∈ ordered.map Module.name then some .done
      else if name ∈ path then some .visiting
      else none :=
  rfl

theorem along_enters (new : m.name ∉ ordered.map Module.name) :
    (along path ordered).mark m.name .visiting = along (path ++ [m.name]) ordered := by
  have marks : Function.update (along path ordered).mark? m.name (some .visiting) =
      (along (path ++ [m.name]) ordered).mark? := by
    funext name
    by_cases same : name = m.name
    · subst same
      rw [Function.update_self, along_mark, if_neg new, if_pos (by simp)]
    · rw [Function.update_of_ne same]
      simp [along, same]
  rw [Progress.mark, marks]
  rfl

theorem along_leaves :
    { (along (path ++ [m.name]) ordered).mark m.name .done with ordered := m :: ordered } =
      along path (m :: ordered) := by
  have marks : Function.update (along (path ++ [m.name]) ordered).mark? m.name (some .done) =
      (along path (m :: ordered)).mark? := by
    funext name
    by_cases same : name = m.name
    · subst same
      rw [Function.update_self]
      simp [along]
    · rw [Function.update_of_ne same]
      simp [along, same]
  rw [Progress.mark, marks]
  rfl

theorem path_found {name : String} (on : name ∈ path) :
    ∃ start, path.idxOf? name = some start ∧ path.drop start = path.dropWhile (· ≠ name) := by
  induction path with
  | nil => exact absurd on List.not_mem_nil
  | cons first rest ih =>
    rw [List.idxOf?_cons]
    by_cases same : first = name
    · exact ⟨0, by simp [same], by simp [same]⟩
    · obtain ⟨start, found, dropped⟩ := ih ((List.mem_cons.mp on).resolve_left (Ne.symm same))
      exact ⟨start + 1, by simp [same, found], by simp [same, dropped]⟩

end Marks

variable {modules : List Module} (options : Options)

theorem visit_known (fuel : Nat) (path : List String) {before : List Module} {m : Module}
    (known : m.name ∈ before.map Module.name) :
    visit options modules fuel path (along path before) m = .ok (along path before) := by
  have mark : (along path before).mark? m.name = some .done := if_pos known
  unfold visit
  rw [mark]

theorem visit_again (fuel : Nat) {path : List String} {before : List Module} {m : Module}
    (new : m.name ∉ before.map Module.name) (on : m.name ∈ path) :
    visit options modules fuel path (along path before) m =
      .error (circle options (Module.cycleAt path m)) := by
  have mark : (along path before).mark? m.name = some .visiting := by
    rw [along_mark, if_neg new, if_pos on]
  obtain ⟨start, found, dropped⟩ := path_found on
  unfold visit
  simp only [mark, found, dropped]
  rfl

theorem visit_along (fuel : Nat) {path : List String} {before : List Module} {m : Module}
    (trodden : Module.Trodden modules path m) (enough : modules.length ≤ path.length + fuel) :
    visit options modules fuel path (along path before) m =
      ((Module.arrange modules fuel path before m).map (along path)).mapError (circle options) := by
  induction fuel generalizing path before m with
  | zero =>
    by_cases known : m.name ∈ before.map Module.name
    · rw [visit_known options _ _ known, Module.arrange_known _ _ known]
      rfl
    · have on : m.name ∈ path := by
        by_contra off
        have shorter := trodden.shorter off
        omega
      rw [visit_again options _ known on, Module.arrange, if_neg known, if_pos on]
      rfl
  | succ fuel ih =>
    by_cases known : m.name ∈ before.map Module.name
    · rw [visit_known options _ _ known, Module.arrange_known _ _ known]
      rfl
    by_cases on : m.name ∈ path
    · rw [visit_again options _ known on, Module.arrange, if_neg known, if_pos on]
      rfl
    have mark : (along path before).mark? m.name = none := by
      rw [along_mark, if_neg known, if_neg on]
    have folded := fold_mapped (Module.follow modules fuel (path ++ [m.name]))
      (fun progress entry =>
        match Module.lookup? modules entry.module with
        | none => .ok progress
        | some imported => visit options modules fuel (path ++ [m.name]) progress imported)
      (along (path ++ [m.name])) id (circle options) m.imports
      (by
        intro ordered entry member
        unfold Module.follow
        dsimp only [id]
        cases found : Module.lookup? modules entry.module with
        | none => rfl
        | some imported =>
          obtain ⟨inside, named⟩ := Module.lookup_member found
          refine ih (trodden.next on (named ▸ List.mem_map_of_mem member) inside) ?_
          rw [List.length_append, List.length_singleton]
          omega)
      before
    rw [List.map_id, ← along_enters known] at folded
    rw [visit, mark, Module.arrange_new fuel known on]
    exact (congrArg (fun result => result >>= _) folded).trans
      (bind_mapped _ fun ordered => congrArg Except.ok along_leaves)

/-- Ordering with marks is ordering: it ends in the same order or with the same cycle, and with no
fault of its own. -/
theorem sort_eq (modules : List Module) :
    sort options modules = (Module.sort modules).mapError (circle options) := by
  have start : (⟨fun _ => none, []⟩ : Progress) = along [] [] := rfl
  have folded := fold_mapped (Module.arrange modules modules.length [])
    (visit options modules modules.length []) (along []) id (circle options) modules
    (fun before m member => visit_along options modules.length
      ⟨member, List.nil_subset _, List.nodup_nil, List.isChain_singleton _⟩ (Nat.le_add_left _ _))
    []
  rw [List.map_id, ← start] at folded
  unfold sort Module.sort
  rw [folded]
  cases modules.foldlM (Module.arrange modules modules.length []) [] <;> rfl

end PureJs.Fallible
