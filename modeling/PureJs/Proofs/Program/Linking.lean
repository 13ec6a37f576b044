import PureJs.Compile
import PureJs.Proofs.Graph.DepthFirst
import PureJs.Proofs.Program.Checked
import PureJs.Proofs.Program.Fold
import PureJs.Proofs.Program.TailCalls
import Mathlib.Data.List.Nodup

/-!
Generated programs link. What the declarations of a module refer to is declared in the module or in
one before it when the program has been checked, and no later step takes it away: folding refers to
nothing new, and what is alive keeps alive all that it refers to.
-/

namespace PureJs

namespace Module

/-- What the declarations of a module refer to is there, in the module or in one of those given. -/
def Linked (earlier : List Module) (m : Module) : Prop :=
  ∀ d ∈ m.declarations, ∀ target name, (target, name) ∈ d.references →
    Reaches earlier m target name

theorem Linked.refers {earlier : List Module} {m : Module} (linked : m.Linked earlier)
    {d : ValueDeclaration} (value : .value d ∈ m.declarations) {path : List Branch}
    {target name : String} (refers : d.body.RefersTo target name path) :
    Reaches earlier m target name := by
  have mentioned := Expr.mentions_iff_refers.mpr ⟨path, refers⟩
  exact linked _ value target name (of_decide_eq_true mentioned)

def Links (modules : List Module) : Prop :=
  ∀ before m after, modules = before ++ m :: after → m.Linked before

theorem Reaches.declared {earlier : List Module} {m : Module} {target name : String}
    (reaches : Reaches earlier m target name) :
    ∃ other ∈ earlier ++ [m], other.name = target ∧ name ∈ other.declaredNames := by
  rcases reaches with ⟨own, named⟩ | ⟨_, other, before, same, named⟩
  · exact ⟨m, by simp, own.symm, named⟩
  · exact ⟨other, List.mem_append_left _ before, same, named⟩

theorem Reaches.kept {earlier changed : List Module} {m kept : Module} {target name : String}
    (reaches : Reaches earlier m target name) (same : kept.name = m.name)
    (own : target = m.name → name ∈ m.declaredNames → name ∈ kept.declaredNames)
    (others : ∀ other ∈ earlier, other.name = target → name ∈ other.declaredNames →
      ∃ still ∈ changed, still.name = target ∧ name ∈ still.declaredNames) :
    Reaches changed kept target name := by
  rcases reaches with ⟨here, named⟩ | ⟨away, other, before, equal, named⟩
  · exact Or.inl ⟨here.trans same.symm, own here named⟩
  · exact Or.inr ⟨fun here => away (here.trans same), others other before equal named⟩

theorem mem_keys {modules : List Module} {key : String × String} :
    key ∈ keys modules ↔ ∃ m ∈ modules, m.name = key.1 ∧ key.2 ∈ m.declaredNames := by
  obtain ⟨target, name⟩ := key
  simp only [keys, List.mem_flatMap, List.mem_map, Prod.mk.injEq]
  constructor
  · rintro ⟨m, inside, other, named, rfl, rfl⟩
    exact ⟨m, inside, rfl, named⟩
  · rintro ⟨m, inside, rfl, named⟩
    exact ⟨m, inside, name, named, rfl, rfl⟩

theorem entries_keys (modules : List Module) :
    (entries modules).map (fun entry => (entry.1, entry.2.name)) = keys modules := by
  induction modules with
  | nil => rfl
  | cons m rest ih =>
    simp only [entries, keys, List.flatMap_cons, List.map_append] at ih ⊢
    rw [ih]
    simp [declaredNames, Function.comp_def]

theorem distinct_keys {modules : List Module} (distinct : (modules.map Module.name).Nodup)
    (declared : ∀ m ∈ modules, m.declaredNames.Nodup) : (keys modules).Nodup := by
  induction modules with
  | nil => exact List.nodup_nil
  | cons m rest ih =>
    rw [List.map_cons, List.nodup_cons] at distinct
    have first : (m.declaredNames.map (m.name, ·)).Nodup :=
      (declared m List.mem_cons_self).map (fun _ _ same => (Prod.mk.inj same).2)
    have others := ih distinct.2 fun other member =>
      declared other (List.mem_cons_of_mem _ member)
    have apart : List.Disjoint (m.declaredNames.map (m.name, ·)) (keys rest) := by
      intro key left right
      obtain ⟨name, _, rfl⟩ := List.mem_map.mp left
      obtain ⟨other, inside, same, _⟩ := mem_keys.mp right
      exact distinct.1 (List.mem_map.mpr ⟨other, inside, same⟩)
    exact List.nodup_append'.mpr ⟨first, others, apart⟩

theorem dependencies_of_declaration {modules : List Module} (distinct : (keys modules).Nodup)
    {m : Module} (inside : m ∈ modules) {d : Declaration} (member : d ∈ m.declarations) :
    dependencies modules (m.name, d.name) = d.references.filter (· ∈ keys modules) := by
  have there : (m.name, d) ∈ entries modules :=
    List.mem_flatMap.mpr ⟨m, inside, List.mem_map.mpr ⟨d, member, rfl⟩⟩
  unfold dependencies
  cases found : (entries modules).reverse.find?
      fun entry => (entry.1, entry.2.name) = (m.name, d.name) with
  | none =>
    have away := List.find?_eq_none.mp found (m.name, d) (List.mem_reverse.mpr there)
    simp at away
  | some entry =>
    have same := List.find?_some found
    have listed := List.mem_reverse.mp (List.mem_of_find?_eq_some found)
    rw [← entries_keys] at distinct
    have equal : entry = (m.name, d) :=
      List.inj_on_of_nodup_map distinct listed there (of_decide_eq_true same)
    rw [equal]

section Live

variable {modules : List Module} {roots : List String} {extra : List (String × String)}

theorem dependencies_subset (key : String × String) : dependencies modules key ⊆ keys modules := by
  unfold dependencies
  split
  · intro other member
    exact of_decide_eq_true (List.mem_filter.mp member).2
  · exact List.nil_subset _

theorem starts_subset (modules : List Module) (roots : List String)
    (extra : List (String × String)) :
    (keys modules).filter (·.1 ∈ roots) ++ extra.filter (· ∈ keys modules) ⊆ keys modules := by
  intro key member
  rcases List.mem_append.mp member with own | named
  · exact (List.mem_filter.mp own).1
  · exact of_decide_eq_true (List.mem_filter.mp named).2

theorem live_closed {key : String × String} (alive : key ∈ live modules roots extra) :
    dependencies modules key ⊆ live modules roots extra := by
  obtain ⟨node, rfl, others⟩ := DepthFirst.walk_closed
    (fun node _ => dependencies_subset node) (starts_subset modules roots extra) alive
  exact others

theorem starts_live : (keys modules).filter (·.1 ∈ roots) ++ extra.filter (· ∈ keys modules) ⊆
    live modules roots extra :=
  (DepthFirst.walk_visits id (fun node _ => dependencies_subset node)
    (starts_subset modules roots extra)).2

theorem extra_live {key : String × String} (named : key ∈ extra) (inside : key ∈ keys modules) :
    key ∈ live modules roots extra :=
  starts_live (List.mem_append_right _ (List.mem_filter.mpr ⟨named, decide_eq_true inside⟩))

theorem keep_live_declares {alive : List (String × String)} {m : Module} {name : String} :
    name ∈ (keepLive alive m).declaredNames ↔ name ∈ m.declaredNames ∧ (m.name, name) ∈ alive := by
  simp only [keepLive, declaredNames, List.mem_map, List.mem_filter, decide_eq_true_eq]
  constructor
  · rintro ⟨d, ⟨member, kept⟩, rfl⟩
    exact ⟨⟨d, member, rfl⟩, kept⟩
  · rintro ⟨⟨d, member, rfl⟩, kept⟩
    exact ⟨d, ⟨member, kept⟩, rfl⟩

theorem split_filter {α : Type} {p : α → Bool} {items before after : List α} {item : α}
    (same : items.filter p = before ++ item :: after) :
    ∃ first rest, items = first ++ item :: rest ∧ first.filter p = before := by
  obtain ⟨front, back, rfl, kept, others⟩ := List.filter_eq_append_iff.mp same
  obtain ⟨skipped, rest, rfl, dropped, _, _⟩ := List.filter_eq_cons_iff.mp others
  refine ⟨front ++ skipped, rest, by simp, ?_⟩
  rw [List.filter_append, kept, List.filter_eq_nil_iff.mpr dropped, List.append_nil]

theorem declares_nonempty {m : Module} {name : String} (named : name ∈ m.declaredNames) :
    m.declarations.isEmpty = false := by
  obtain ⟨d, member, _⟩ := List.mem_map.mp named
  cases same : m.declarations with
  | nil => simp [same] at member
  | cons first rest => rfl

theorem eliminate_dead_links (distinct : (keys modules).Nodup) (links : Links modules) :
    Links (eliminateDead roots extra modules) := by
  intro before kept after split
  obtain ⟨first, rest, mapped, filtered⟩ := split_filter split
  obtain ⟨front, back, rfl, same, others⟩ := List.map_eq_append_iff.mp mapped
  obtain ⟨m, behind, rfl, rfl, _⟩ := List.map_eq_cons_iff.mp others
  subst same
  intro d member target name refers
  obtain ⟨declared, alive⟩ := List.mem_filter.mp member
  have reaches := links front m behind rfl d declared target name refers
  have needed : (target, name) ∈ live (front ++ m :: behind) roots extra := by
    apply live_closed (of_decide_eq_true alive)
    rw [dependencies_of_declaration distinct (by simp) declared]
    obtain ⟨other, there, same, named⟩ := reaches.declared
    refine List.mem_filter.mpr ⟨refers, decide_eq_true (mem_keys.mpr ⟨other, ?_, same, named⟩)⟩
    simp only [List.mem_append, List.mem_cons, List.not_mem_nil, or_false] at there ⊢
    exact there.imp_right Or.inl
  refine reaches.kept rfl ?_ ?_
  · intro own named
    exact keep_live_declares.mpr ⟨named, own ▸ needed⟩
  · intro other earlier same named
    have stays := keep_live_declares.mpr ⟨named, same ▸ needed⟩
    rw [← filtered]
    refine ⟨_, List.mem_filter.mpr ⟨List.mem_map_of_mem earlier, ?_⟩, same, stays⟩
    rw [declares_nonempty stays]
    rfl

theorem map_links {f : Module → Module} (names : ∀ m, (f m).name = m.name)
    (declares : ∀ m, (f m).declaredNames = m.declaredNames)
    (refers : ∀ m, ∀ d ∈ (f m).declarations, ∃ source ∈ m.declarations,
      d.references ⊆ source.references)
    (links : Links modules) : Links (modules.map f) := by
  intro before mapped after split
  obtain ⟨front, back, rfl, rfl, others⟩ := List.map_eq_append_iff.mp split
  obtain ⟨m, behind, rfl, rfl, _⟩ := List.map_eq_cons_iff.mp others
  intro d member target name used
  obtain ⟨source, inside, fewer⟩ := refers m d member
  have reaches := links front m behind rfl source inside target name (fewer used)
  refine reaches.kept (names m) (fun _ named => (declares m).symm ▸ named) ?_
  intro other earlier same named
  exact ⟨f other, List.mem_map_of_mem earlier, (names other).trans same,
    (declares other).symm ▸ named⟩

end Live

theorem optimize_declared_names [Simplifier] (m : Module) :
    m.optimize.declaredNames = m.declaredNames := by
  simp only [optimize, mapBodies, declaredNames, List.map_map]
  apply List.map_congr_left
  intro d _
  cases d <;> rfl

theorem optimize_references [Simplifier] (m : Module) (d : Declaration)
    (member : d ∈ m.optimize.declarations) :
    ∃ source ∈ m.declarations, d.references ⊆ source.references := by
  obtain ⟨source, inside, rfl⟩ := List.mem_map.mp member
  refine ⟨source, inside, ?_⟩
  cases source with
  | value v => exact Expr.fold_references
  | foreign f => exact List.Subset.refl _

theorem Accepted.links {program sorted : List Module} (accepted : Accepted program sorted) :
    Links (sorted.map (resolve program)) := by
  intro before mapped after split
  obtain ⟨front, back, same, rfl, others⟩ := List.map_eq_append_iff.mp split
  obtain ⟨m, behind, rfl, rfl, _⟩ := List.map_eq_cons_iff.mp others
  intro d member target name refers
  cases d with
  | foreign f => exact absurd refers List.not_mem_nil
  | value d =>
    obtain ⟨use, inside, resolved, rfl⟩ := (Expr.mem_references d.params).mp refers
    have found := accepted.resolved (by simp [same]) member inside
    have reaches := accepted.refers same (resolved ▸ found)
    refine reaches.kept rfl (fun _ named => (resolve_declared_names program m).symm ▸ named) ?_
    intro other earlier same named
    exact ⟨resolve program other, List.mem_map_of_mem earlier, same,
      (resolve_declared_names program other).symm ▸ named⟩

end Module

section Compile

variable {options : Options} {ordered : List Module}

theorem optimized_links [Simplifier] (links : Module.Links ordered) :
    Module.Links (optimized options ordered) := by
  unfold optimized
  split
  · exact links
  · exact Module.map_links (fun _ => rfl) Module.optimize_declared_names Module.optimize_references
      links

theorem optimized_keys [Simplifier] : Module.keys
    (optimized options ordered) = Module.keys ordered := by
  unfold optimized
  split
  · rfl
  · simp only [Module.keys, List.flatMap_map, Module.optimize_declared_names]
    rfl

theorem optimized_keeps_entry [Simplifier] {m : Module} (member : m ∈ ordered)
    {d : ValueDeclaration}
    (value : Declaration.value d ∈ m.declarations) :
    ∃ other ∈ optimized options ordered, other.name = m.name ∧
      ∃ e, Declaration.value e ∈ other.declarations ∧ e.name = d.name := by
  unfold optimized
  split
  · exact ⟨m, member, rfl, d, value, rfl⟩
  · exact ⟨m.optimize, List.mem_map_of_mem member, rfl, { d with body := d.body.fold },
      List.mem_map_of_mem value, rfl⟩

theorem without_dead_code_links {modules : List Module} (distinct : (Module.keys modules).Nodup)
    (links : Module.Links modules) : Module.Links (withoutDeadCode options modules) := by
  unfold withoutDeadCode
  split
  · exact links
  · exact Module.eliminate_dead_links distinct links

theorem without_dead_code_keeps_entry {modules : List Module} {m : Module} (member : m ∈ modules)
    (entry : options.entryModule = some m.name) {d : ValueDeclaration}
    (value : Declaration.value d ∈ m.declarations) (main : d.name = entryName) :
    ∃ other ∈ withoutDeadCode options modules, other.name = m.name ∧
      Declaration.value d ∈ other.declarations := by
  unfold withoutDeadCode
  split
  · exact ⟨m, member, rfl, value⟩
  · have named : d.name ∈ m.declaredNames := List.mem_map.mpr ⟨_, value, rfl⟩
    have alive : (m.name, d.name) ∈ Module.live modules options.rootModules
        (options.entryModule.toList.map (·, entryName)) :=
      Module.extra_live (by simp [entry, main]) (Module.mem_keys.mpr ⟨m, member, rfl, named⟩)
    refine ⟨_, List.mem_filter.mpr ⟨List.mem_map_of_mem member, ?_⟩, rfl,
      List.mem_filter.mpr ⟨value, decide_eq_true alive⟩⟩
    rw [Module.declares_nonempty (Module.keep_live_declares.mpr ⟨named, alive⟩)]
    rfl

theorem entry_findings_nil {modules : List Module} {name : String}
    (none : entryFindings modules name = []) :
    ∃ m ∈ modules, m.name = name ∧
      ∃ d, Declaration.value d ∈ m.declarations ∧ d.name = entryName := by
  unfold entryFindings at none
  split at none
  · cases none
  · rename_i m found
    split at none
    · rename_i main
      obtain ⟨d, member, value⟩ := List.any_eq_true.mp main
      cases d with
      | foreign f => cases value
      | value d =>
        exact ⟨m, List.mem_of_find?_eq_some found, by simpa using List.find?_some found, d,
          member, by simpa [Declaration.value?] using value⟩
    · cases none

def Module.output [Simplifier] (options : Options) (ordered : List Module) : List Module :=
  selected options (withoutDeadCode options (optimized options ordered))

theorem compile_ok_iff [Simplifier] {header : List String} {program : List Module}
    {compiled : Compiled} :
    compileModules options header program = .ok compiled ↔
      ∃ ordered, Module.check options program = .ok ordered ∧ optionFindings options ordered = [] ∧
        compiled = ⟨(Module.emitProgram options header (Module.output options ordered)).text,
          Module.externsOf (Module.output options ordered),
          compileNotes options (withoutDeadCode options (optimized options ordered))
            (Module.output options ordered)⟩ := by
  unfold compileModules
  cases Module.check options program with
  | error refusal => simp
  | ok ordered =>
    dsimp only
    by_cases fine : optionFindings options ordered = []
    · rw [if_neg (not_not.mpr fine)]
      constructor
      · intro done
        cases done
        exact ⟨ordered, rfl, fine, rfl⟩
      · rintro ⟨_, same, _, rfl⟩
        cases same
        rfl
    · rw [if_pos fine]
      refine iff_of_false nofun ?_
      rintro ⟨_, same, none, _⟩
      cases same
      exact fine none

theorem compile_modules_ok [Simplifier] {header : List String} {modules : List Module}
    {compiled : Compiled}
    (done : compileModules options header modules = .ok compiled) :
    ∃ ordered, Module.check options modules = .ok ordered ∧ optionFindings options ordered = [] ∧
      compiled.javascript = (Module.emitProgram options header
        (selected options (withoutDeadCode options (optimized options ordered)))).text := by
  obtain ⟨ordered, checked, fine, rfl⟩ := compile_ok_iff.mp done
  exact ⟨ordered, checked, fine, rfl⟩

/-- A program that is compiled as a whole links: in the modules that the code is written for, every
value that a name stands for, wherever it is named, is declared in the same module or in an earlier
one, and the entry module has its entry. -/
theorem compiled_program_links [Simplifier] {header : List String} {modules : List Module}
    {compiled : Compiled} (whole : options.outputModules = [])
    (done : compileModules options header modules = .ok compiled) :
    ∃ ordered output, Module.check options modules = .ok ordered ∧
      output = selected options (withoutDeadCode options (optimized options ordered)) ∧
      compiled.javascript = (Module.emitProgram options header output).text ∧
      (∀ before m after, output = before ++ m :: after →
        ∀ d, Declaration.value d ∈ m.declarations → ∀ path target name,
          d.body.RefersTo target name path →
            (target = m.name ∧ name ∈ m.declaredNames) ∨
              (target ≠ m.name ∧
                ∃ other ∈ before, other.name = target ∧ name ∈ other.declaredNames)) ∧
      ∀ entry, options.entryModule = some entry → ∃ m ∈ output, m.name = entry ∧
        ∃ d, Declaration.value d ∈ m.declarations ∧ d.name = entryName := by
  obtain ⟨ordered, checked, fine, written⟩ := compile_modules_ok done
  obtain ⟨sorted, accepted, same⟩ := Module.check_accepted checked
  have all : selected options (withoutDeadCode options (optimized options ordered)) =
      withoutDeadCode options (optimized options ordered) := by
    simp [selected, whole]
  have distinct : (Module.keys (optimized options ordered)).Nodup := by
    rw [optimized_keys, same]
    apply Module.distinct_keys
    · rw [List.map_map]
      exact accepted.order.distinct
    · intro m member
      obtain ⟨source, inside, rfl⟩ := List.mem_map.mp member
      exact (Module.resolve_declared_names _ source).symm ▸ accepted.declared source inside
  have links : Module.Links (withoutDeadCode options (optimized options ordered)) :=
    without_dead_code_links distinct (optimized_links (same ▸ accepted.links))
  refine ⟨ordered, _, checked, rfl, written, ?_, ?_⟩
  · intro before m after split d value path target name refers
    rw [all] at split
    exact (links before m after split).refers value refers
  · intro entry given
    rw [all]
    have main := List.append_eq_nil_iff.mp fine
    rw [given] at main
    obtain ⟨m, member, rfl, d, value, named⟩ := entry_findings_nil main.2
    obtain ⟨other, inside, equal, e, kept, still⟩ := optimized_keeps_entry member value
    obtain ⟨last, there, equals, stays⟩ := without_dead_code_keeps_entry inside
      (equal ▸ given) kept (still.trans named)
    exact ⟨last, there, equals.trans equal, e, stays, still.trans named⟩

def linkedPair : List Module :=
  let place : Position := ⟨1, 1⟩
  [⟨"App", "app", place, [⟨"Base", place, false⟩],
      [.value ⟨place, "main", [], .lambda place ["u"] (.var place "x" none none)⟩], []⟩,
    ⟨"Base", "base", place, [],
      [.value ⟨place, "x", [], .literal place (.integer 1)⟩,
        .value ⟨place, "y", [], .literal place (.integer 2)⟩], []⟩]

def linkedPairOptions : Options :=
  { Options.default with noPrelude := true, rootModules := ["App"], entryModule := some "App" }

theorem linked_pair_compiles :
    ∃ compiled ordered output, compileModules linkedPairOptions [] linkedPair = .ok compiled ∧
      output = selected linkedPairOptions
        (withoutDeadCode linkedPairOptions (optimized linkedPairOptions ordered)) ∧
      output.map (fun m => (m.name, m.declaredNames)) = [("Base", ["x"]), ("App", ["main"])] ∧
      compiled.javascript = (Module.emitProgram linkedPairOptions [] output).text ∧
      ∃ before m after d path, output = before ++ m :: after ∧
        Declaration.value d ∈ m.declarations ∧ d.body.RefersTo "Base" "x" path ∧
        m.name = "App" ∧ d.name = entryName ∧
        ∃ other ∈ before, other.name = "Base" ∧ "x" ∈ other.declaredNames := by
  have compiles : (compileModules linkedPairOptions [] linkedPair).isOk = true := by decide +kernel
  have pinned : (Module.check linkedPairOptions linkedPair).toOption.any (fun ordered =>
      let output := selected linkedPairOptions
        (withoutDeadCode linkedPairOptions (optimized linkedPairOptions ordered))
      output.map (fun m => (m.name, m.declaredNames)) = [("Base", ["x"]), ("App", ["main"])] &&
        output.any fun m => m.name = "App" && m.declarations.any fun d => d.value?.any fun v =>
          v.name = entryName && v.body.mentions "Base" "x") = true := by decide +kernel
  cases done : compileModules linkedPairOptions [] linkedPair with
  | error rejection =>
    rw [done] at compiles
    cases compiles
  | ok compiled =>
    obtain ⟨ordered, output, checked, kept, written, links, -⟩ := compiled_program_links rfl done
    obtain ⟨_, again, passes⟩ := any_gives pinned
    cases checked.symm.trans again
    simp only [← kept, Bool.and_eq_true, decide_eq_true_eq, List.any_eq_true,
      Option.any_eq_true] at passes
    obtain ⟨shape, m, member, own, declaration, listed, d, value, main, mentioned⟩ := passes
    have declared : Declaration.value d ∈ m.declarations := by
      cases declaration with
      | value => exact Option.some.inj value ▸ listed
      | foreign => cases value
    obtain ⟨path, refers⟩ := Expr.mentions_iff_refers.mp mentioned
    obtain ⟨before, after, split⟩ := List.append_of_mem member
    refine ⟨compiled, ordered, output, rfl, kept, shape, written, before, m, after, d, path, split,
      declared, refers, own, main, ?_⟩
    rcases links before m after split d declared path "Base" "x" refers with ⟨same, _⟩ | ⟨_, other⟩
    · rw [own] at same
      exact absurd same (by decide)
    · exact other

end Compile

end PureJs
