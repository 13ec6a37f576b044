import PureJs.Proofs.Program.Sorting
import PureJs.Proofs.Program.WellFormed

/-!
A module more, with a name of its own, behind the modules of an accepted program. Nothing in the
program can refer to it, so that every step of the check does with the others what it did without
it, and whatever is wrong now is wrong with the module that was added.
-/

namespace PureJs

/-- The finding lies in the module, or it is that the module imports itself. -/
inductive Finding.About (m : Module) : Finding → Prop
  | inside {problem : Problem} {place : Position} {context : List Frame}
      (frame : Frame.module m.name ∈ context) :
      Finding.About m ⟨problem, some (m.file, place), context⟩
  | circle : Finding.About m (Module.ImportCycle.finding ⟨[m.name, m.name], m⟩)

namespace Module

section Findings

variable {m : Module}

theorem finding_about (place : Position) (problem : Problem) :
    (m.finding place problem).About m :=
  .inside List.mem_cons_self

theorem declaration_findings_about {known : List String} {declarations : List Declaration} :
    ∀ finding ∈ declarationFindings m known declarations, finding.About m := by
  induction declarations generalizing known with
  | nil => exact fun finding none => absurd none List.not_mem_nil
  | cons d rest ih =>
    refine List.forall_mem_append.mpr ⟨List.forall_mem_append.mpr ⟨?_, ?_⟩, ih⟩
    · intro finding member
      split at member
      · exact List.mem_singleton.mp member ▸ finding_about _ _
      · exact absurd member List.not_mem_nil
    · intro finding member
      split at member
      · split at member
        · exact absurd member List.not_mem_nil
        · exact List.mem_singleton.mp member ▸ finding_about _ _
      · exact absurd member List.not_mem_nil

theorem signature_findings_about {known : List String} {signatures : List Signature} :
    ∀ finding ∈ signatureFindings m known signatures, finding.About m := by
  induction signatures generalizing known with
  | nil => exact fun finding none => absurd none List.not_mem_nil
  | cons s rest ih =>
    refine List.forall_mem_append.mpr ⟨List.forall_mem_append.mpr ⟨?_, ?_⟩, ih⟩
    · intro finding member
      split at member
      · exact List.mem_singleton.mp member ▸ finding_about _ _
      · exact absurd member List.not_mem_nil
    · intro finding member
      split at member
      · exact absurd member List.not_mem_nil
      · exact List.mem_singleton.mp member ▸ finding_about _ _

theorem name_findings_about (modules : List Module) (d : Declaration) :
    ∀ finding ∈ nameFindings modules m d, finding.About m := by
  cases d with
  | foreign f => exact fun finding none => absurd none List.not_mem_nil
  | value d =>
    intro finding member
    obtain ⟨use, _, found⟩ := List.mem_filterMap.mp member
    split at found
    · cases found
    · cases found
      exact .inside (List.mem_cons_of_mem _ List.mem_cons_self)

theorem findings_about (modules : List Module) :
    ∀ finding ∈ findings modules m, finding.About m := by
  refine List.forall_mem_append.mpr ⟨List.forall_mem_append.mpr
    ⟨declaration_findings_about, signature_findings_about⟩, ?_⟩
  intro finding member
  obtain ⟨d, _, found⟩ := List.mem_flatMap.mp member
  exact name_findings_about modules d finding found

end Findings

/-- All imports of the modules are of modules among them. -/
def Closed (modules : List Module) : Prop :=
  ∀ m ∈ modules, ∀ entry ∈ m.imports, entry.module ∈ modules.map Module.name

section Extended

variable {modules sorted : List Module} {added : Module}

theorem lookup_added : lookup? (modules ++ [added]) added.name = some added := by
  simp [lookup?]

theorem lookup_beside {name : String} (other : name ≠ added.name) :
    lookup? (modules ++ [added]) name = lookup? modules name := by
  unfold lookup?
  rw [List.reverse_append, List.reverse_singleton, List.singleton_append,
    List.find?_cons_of_neg]
  simpa using Ne.symm other

/-- A module of the program is arranged as before: its imports lead to the same modules, and more
room is left. -/
theorem arrange_extended (new : added.name ∉ modules.map Module.name)
    (closed : Closed modules) {fuel more : Nat} (enough : fuel ≤ more)
    {path : List String} {before after : List Module} {m : Module} (inside : m ∈ modules)
    (result : arrange modules fuel path before m = .ok after) :
    arrange (modules ++ [added]) more path before m = .ok after := by
  induction fuel generalizing more path before m after with
  | zero =>
    obtain ⟨known, rfl⟩ | ⟨_, _, less, _, none, _⟩ := arrange_gives result
    · exact arrange_known _ _ known
    · cases none
  | succ fuel ih =>
    obtain ⟨known, rfl⟩ | ⟨fresh, off, less, middle, same, folded, rfl⟩ := arrange_gives result
    · exact arrange_known _ _ known
    · cases same
      obtain ⟨extra, rfl⟩ := Nat.exists_eq_add_of_le' enough
      have follows : m.imports.foldlM (follow (modules ++ [added]) (extra + fuel)
          (path ++ [m.name])) before = .ok middle := by
        refine fold_follows ?_ folded
        intro entry member start stop step
        have away : entry.module ≠ added.name := fun same =>
          new (same ▸ closed m inside entry member)
        unfold follow at step ⊢
        rw [lookup_beside away]
        cases found : lookup? modules entry.module with
        | none =>
          rw [found] at step
          exact step
        | some imported =>
          rw [found] at step
          exact ih (Nat.le_add_left fuel extra) (lookup_member found).1 step
      rw [← Nat.add_assoc, arrange_new _ fresh off, follows]
      rfl

theorem sort_extended (new : added.name ∉ modules.map Module.name)
    (closed : Closed modules) (order : sort modules = .ok sorted)
    (known : ∀ entry ∈ added.imports, entry.module = added.name ∨
      entry.module ∈ modules.map Module.name) :
    sort (modules ++ [added]) = .ok (sorted ++ [added]) ∨
      sort (modules ++ [added]) = .error ⟨[added.name, added.name], added⟩ := by
  have sorts := sort_sorted order
  obtain ⟨ordered, folded, last⟩ := bind_gives order
  cases last
  have names : ∀ name, name ∈ ordered.map Module.name ↔ name ∈ modules.map Module.name := by
    intro name
    constructor
    · intro member
      obtain ⟨m, there, same⟩ := List.mem_map.mp member
      exact List.mem_map.mpr ⟨m, sorts.members m (List.mem_reverse.mpr there), same⟩
    · intro member
      obtain ⟨m, there, rfl⟩ := List.mem_map.mp member
      have listed := sorts.complete m there
      rwa [List.map_reverse, List.mem_reverse] at listed
  have fresh : added.name ∉ ordered.map Module.name := fun old => new ((names _).mp old)
  have others : modules.foldlM (arrange (modules ++ [added]) (modules ++ [added]).length []) [] =
      .ok ordered := by
    refine fold_follows ?_ folded
    intro m inside before after step
    exact arrange_extended new closed (by simp) inside step
  have arranged : sort (modules ++ [added]) =
      added.imports.foldlM (follow (modules ++ [added]) modules.length [added.name]) ordered >>=
        fun ordered => pure (added :: ordered).reverse := by
    unfold sort
    rw [List.foldlM_append, others, List.length_append, List.length_singleton]
    show ([added].foldlM (arrange _ (modules.length + 1) []) ordered >>= _) = _
    rw [List.foldlM_cons, arrange_new _ fresh List.not_mem_nil]
    simp
  have self : ∀ entry ∈ added.imports, entry.module = added.name →
      follow (modules ++ [added]) modules.length [added.name] ordered entry =
        .error ⟨[added.name, added.name], added⟩ := by
    intro entry _ same
    unfold follow
    rw [same, lookup_added]
    dsimp only
    unfold arrange
    rw [if_neg fresh, if_pos List.mem_cons_self, cycleAt]
    simp
  have stays : ∀ entry ∈ added.imports, entry.module ≠ added.name →
      follow (modules ++ [added]) modules.length [added.name] ordered entry = .ok ordered := by
    intro entry member away
    exact follow_known _ _ ((names _).mpr ((known entry member).resolve_left away))
  rw [arranged]
  by_cases loops : added.name ∈ added.importedModules
  · right
    obtain ⟨entry, member, same⟩ := List.mem_map.mp loops
    rw [fold_stops (fun entry member => ?_) member (self entry member same)]
    · rfl
    · by_cases same : entry.module = added.name
      · exact Or.inr (self entry member same)
      · exact Or.inl (stays entry member same)
  · left
    rw [fold_stays fun entry member => stays entry member fun same =>
      loops (same ▸ List.mem_map_of_mem member)]
    simp [bind, Except.bind, pure, Except.pure]

theorem declares_beside {target name : String} (other : target ≠ added.name) :
    declares (modules ++ [added]) target name = declares modules target name := by
  unfold declares
  rw [List.any_append]
  simp [Ne.symm other]

variable {m : Module} (new : added.name ∉ modules.map Module.name)
  (closed : Closed modules) (inside : m ∈ modules)
include new closed inside

theorem lookup_extended : lookup (modules ++ [added]) m = lookup modules m := by
  have imported : ∀ target ∈ m.importedModules, target ≠ added.name := by
    rintro target written rfl
    obtain ⟨entry, member, same⟩ := List.mem_map.mp written
    exact new (same ▸ closed m inside entry member)
  have own : m.name ≠ added.name := fun same => new (same ▸ List.mem_map_of_mem inside)
  have exports : ∀ name, exporters (modules ++ [added]) m name = exporters modules m name := by
    intro name
    refine List.filter_congr fun target listed => ?_
    exact declares_beside (imported target (List.mem_eraseDups.mp listed))
  funext use
  unfold lookup
  cases use.qualifier with
  | none => simp only [exports]
  | some target =>
    by_cases away : target ≠ m.name ∧ target ∉ m.importedModules
    · simp only [if_pos away]
    · have near : target ≠ added.name := by
        by_cases same : target = m.name
        · exact same ▸ own
        · exact imported target (by_contra fun missing => away ⟨same, missing⟩)
      simp only [declares_beside near]

theorem findings_extended : findings (modules ++ [added]) m = findings modules m := by
  have names : nameFindings (modules ++ [added]) m = nameFindings modules m := by
    funext d
    cases d with
    | value d => simp only [nameFindings, lookup_extended new closed inside]
    | foreign f => rfl
  unfold findings
  rw [names]

theorem resolve_extended : resolve (modules ++ [added]) m = resolve modules m := by
  unfold resolve
  rw [lookup_extended new closed inside]

end Extended

variable {options : Options} {modules : List Module} {added : Module}

theorem with_prelude_extended (other : added.name ≠ preludeName) (m : Module) :
    withPrelude options (modules ++ [added]) m = withPrelude options modules m := by
  have present : preludeName ∈ (modules ++ [added]).map Module.name ↔
      preludeName ∈ modules.map Module.name := by
    simp [Ne.symm other]
  unfold withPrelude
  simp only [present]

theorem add_prelude_extended (other : added.name ≠ preludeName) :
    addPrelude options (modules ++ [added]) =
      addPrelude options modules ++ [withPrelude options modules added] := by
  have same : withPrelude options (modules ++ [added]) = withPrelude options modules :=
    funext (with_prelude_extended other)
  rw [add_prelude_eq, add_prelude_eq, List.map_append, List.map_singleton, same]

theorem about_with_prelude {finding : Finding}
    (about : finding.About (withPrelude options modules added)) : finding.About added := by
  have same : finding.About (withPrelude options modules added) = finding.About added := by
    refine with_prelude_keeps finding.About fun imports => propext ⟨?_, ?_⟩
    · rintro (frame | _)
      · exact .inside frame
      · exact .circle
    · rintro (frame | _)
      · exact .inside frame
      · exact .circle
  exact same ▸ about

theorem unknown_imports_extended (closed : Closed modules) {added : Module} :
    unknownImports (modules ++ [added]) = (added.imports.filter fun entry =>
      entry.module ∉ (modules ++ [added]).map Module.name).map fun entry =>
        added.finding entry.place (.unknownModule entry.module) := by
  unfold unknownImports
  rw [List.flatMap_append, List.flatMap_singleton]
  refine List.append_left_eq_self.mpr (List.flatMap_eq_nil_iff.mpr fun m inside => ?_)
  rw [List.map_eq_nil_iff, List.filter_eq_nil_iff]
  intro entry member
  have listed := closed m inside entry member
  rw [List.map_append]
  simp only [decide_eq_true_eq, not_not]
  exact List.mem_append_left _ listed

/-- A module with a name of its own that is added to an accepted program leaves the other modules
as they were checked, and comes behind them, unless it is wrong itself: whatever is found is about
it. -/
theorem check_extended {ordered : List Module} (accepted : check options modules = .ok ordered)
    (new : added.name ∉ modules.map Module.name) (other : added.name ≠ preludeName) :
    (∀ extended, check options (modules ++ [added]) = .ok extended →
        extended = ordered ++ [resolve (addPrelude options (modules ++ [added]))
          (withPrelude options (modules ++ [added]) added)]) ∧
      ∀ refusal, check options (modules ++ [added]) = .error refusal →
        ∀ finding ∈ refusal.rejection.findings, finding.About added := by
  obtain ⟨distinct, known, sorted, order, fine, rfl⟩ := check_ok_iff.mp accepted
  have closed : Closed (addPrelude options modules) := unknown_imports_nil_iff.mp known
  have beside : (withPrelude options modules added).name ∉
      (addPrelude options modules).map Module.name := by
    rw [with_prelude_name, add_prelude_names]
    exact new
  have whole : addPrelude options (modules ++ [added]) =
      addPrelude options modules ++ [withPrelude options modules added] :=
    add_prelude_extended other
  have once : ((modules ++ [added]).map Module.name).Nodup := by
    rw [List.map_append, List.map_singleton, ← List.concat_eq_append]
    exact distinct.concat new
  have listed : ∀ m ∈ sorted, m ∈ addPrelude options modules := (sort_sorted order).members
  have sorts : unknownImports (addPrelude options (modules ++ [added])) = [] →
      sort (addPrelude options (modules ++ [added])) =
          .ok (sorted ++ [withPrelude options modules added]) ∨
        sort (addPrelude options (modules ++ [added])) =
          .error ⟨[(withPrelude options modules added).name,
            (withPrelude options modules added).name], withPrelude options modules added⟩ := by
    intro none
    rw [whole, unknown_imports_nil_iff] at none
    rw [whole]
    refine sort_extended beside closed order fun entry member => ?_
    have there := none _ (List.mem_append_right _ List.mem_cons_self) entry member
    simpa [or_comm] using there
  refine ⟨?_, ?_⟩
  · intro extended checked
    obtain ⟨_, none, resorted, reorder, _, rfl⟩ := check_ok_iff.mp checked
    rcases sorts none with same | stuck
    · cases same.symm.trans reorder
      rw [List.map_append, List.map_singleton, with_prelude_extended other]
      refine congrArg (· ++ _) (List.map_congr_left fun m member => ?_)
      rw [whole, resolve_extended beside closed (listed m member)]
    · rw [stuck] at reorder
      cases reorder
  · intro refusal refused finding member
    have near : finding.About (withPrelude options modules added) → finding.About added :=
      about_with_prelude
    refine near ?_
    have report := check_refused refused
    generalize refusal.rejection.findings = found at report member
    cases report with
    | repeated wrong => exact absurd once wrong
    | unknown _ _ =>
      rw [whole, unknown_imports_extended closed] at member
      obtain ⟨entry, _, rfl⟩ := List.mem_map.mp member
      exact finding_about _ _
    | circle _ none stuck =>
      rcases sorts none with same | circle
      · rw [same] at stuck
        cases stuck
      · cases circle.symm.trans stuck
        rw [List.mem_singleton.mp member]
        exact .circle
    | inside _ none reorder _ =>
      rcases sorts none with same | stuck
      · cases same.symm.trans reorder
        rw [List.flatMap_append, List.flatMap_singleton] at member
        rcases List.mem_append.mp member with old | own
        · obtain ⟨m, there, found⟩ := List.mem_flatMap.mp old
          rw [whole, findings_extended beside closed (listed m there), fine m there] at found
          exact absurd found List.not_mem_nil
        · exact findings_about _ finding own
      · rw [stuck] at reorder
        cases reorder

def tool : Module :=
  let place : Position := ⟨1, 1⟩
  ⟨"Tool", "tool", place, [⟨"App", place, false⟩],
    [.value ⟨place, "run", [], .app place (.var place "log" none none) (.var place "x" none none)⟩],
    []⟩

def circular : Module := { tool with imports := ⟨"Tool", ⟨1, 1⟩, false⟩ :: tool.imports }

theorem shadowing_extended :
    ∃ ordered extended refusal, check Options.default shadowing = .ok ordered ∧
      tool.name ∉ shadowing.map Module.name ∧ tool.name ≠ preludeName ∧
      check Options.default (shadowing ++ [tool]) = .ok extended ∧
      ordered <+: extended ∧ extended.map Module.name = ["Prelude", "App", "Tool"] ∧
      check Options.default (shadowing ++ [circular]) = .error refusal ∧
      refusal.rejection.findings ≠ [] ∧
      ∀ finding ∈ refusal.rejection.findings, finding.About circular := by
  obtain ⟨ordered, accepted⟩ : ∃ ordered, check Options.default shadowing = .ok ordered := ⟨_, rfl⟩
  obtain ⟨extended, checked, names⟩ : ∃ extended,
      check Options.default (shadowing ++ [tool]) = .ok extended ∧
        extended.map Module.name = ["Prelude", "App", "Tool"] := ⟨_, rfl, rfl⟩
  obtain ⟨refusal, refused, some⟩ : ∃ refusal,
      check Options.default (shadowing ++ [circular]) = .error refusal ∧
        refusal.rejection.findings ≠ [] := ⟨_, rfl, List.cons_ne_nil _ _⟩
  have new : tool.name ∉ shadowing.map Module.name := by decide
  have other : tool.name ≠ preludeName := by decide
  refine ⟨ordered, extended, refusal, accepted, new, other, checked, ?_, names, refused, some, ?_⟩
  · rw [(check_extended accepted new other).1 extended checked]
    exact List.prefix_append ordered _
  · exact (@check_extended _ _ circular _ accepted new other).2 refusal refused

end Module

end PureJs
