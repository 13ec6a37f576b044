import PureJs.Proofs.Emit.OwnNames
import PureJs.Proofs.Emit.PlainScopes
import PureJs.Proofs.Program.Linking

/-!
What the bare names in plain code are bound to. A local name is bound by the function of its
innermost binder; a name of the module itself is bound by no function of its declaration, and its
variable is set by the statement of the declaration that it means, as is that of the chaining
function by its helper.
-/

namespace PureJs

namespace Module

variable {options : Options} {m : Module}

/-- The statements of the function that a module is. -/
def body (options : Options) (m : Module) : List Js.Statement :=
  let setting : Emit.Setting := ⟨m.name, options.directBlocks⟩
  let declared := m.orderedDeclarations.map (Emit.declaration options setting)
  (if Js.statementsUse Emit.bindName declared then [Emit.bindHelper] else []) ++ declared ++
    [.give (.object (m.declaredNames.map fun name => (name, .name (Js.identifier name))))]

theorem emit_body : emit options m =
    .assign (Js.moduleObject m.name) (.call (.paren (.function [] (m.body options))) []) := rfl

theorem uses_subset (m : Module) (d : Declaration) : m.uses d ⊆ m.declarations :=
  List.filter_subset_self _

theorem ordered_declarations_subset (m : Module) : m.orderedDeclarations ⊆ m.declarations := by
  intro d member
  have seen := DepthFirst.walk_sees_good Declaration.name (fun d _ => m.uses_subset d)
    (fun _ => id) m.declarations.length
  exact seen.left d (List.mem_reverse.mp member)

theorem mem_ordered_declarations (distinct : m.declaredNames.Nodup) {d : Declaration} :
    d ∈ m.orderedDeclarations ↔ d ∈ m.declarations := by
  constructor
  · exact fun member => m.ordered_declarations_subset member
  · intro member
    obtain ⟨visits, reached⟩ := DepthFirst.walk_visits Declaration.name
      (fun d _ => m.uses_subset d) (List.Subset.refl m.declarations)
    rcases visits.fresh d.name (reached d member) with none | ⟨other, there, same⟩
    · exact absurd none List.not_mem_nil
    · have inside := m.ordered_declarations_subset (List.mem_reverse.mpr there)
      rw [← List.inj_on_of_nodup_map distinct inside member same]
      exact List.mem_reverse.mpr there

end Module

theorem Declaration.Formed.lexical {d : Declaration} (formed : d.Formed) : Lexical d.name := by
  cases d with
  | value d => exact ValueDeclaration.Formed.name formed
  | foreign f => exact formed

structure Module.Ready (m : Module) : Prop where
  formed : m.Formed
  distinct : m.declaredNames.Nodup
  found : ∀ d, Declaration.value d ∈ m.declarations → ∀ o ∈ d.body.occurrences d.params,
    ∃ modules source, source.name = m.name ∧ Module.lookup modules source o = .ok o.resolved
  declared : ∀ d, Declaration.value d ∈ m.declarations → ∀ o ∈ d.body.occurrences d.params,
    o.resolved = some m.name → o.name ∈ m.declaredNames

theorem without_dead_code_source {options : Options} {modules : List Module} {m : Module}
    (member : m ∈ withoutDeadCode options modules) :
    ∃ source ∈ modules, source.name = m.name ∧ m.declarations.Sublist source.declarations := by
  unfold withoutDeadCode at member
  split at member
  · exact ⟨m, member, rfl, List.Sublist.refl _⟩
  · obtain ⟨source, inside, rfl⟩ := List.mem_map.mp (List.mem_of_mem_filter member)
    exact ⟨source, inside, rfl, List.filter_sublist⟩

theorem emitted_source {options : Options} {modules : List Module} {m : Module}
    (member : m ∈ selected options (withoutDeadCode options modules)) :
    m ∈ withoutDeadCode options modules ∧
      ∃ source ∈ modules, source.name = m.name ∧ m.declarations.Sublist source.declarations := by
  have kept : m ∈ withoutDeadCode options modules := by
    unfold selected at member
    split at member
    · exact member
    · exact List.mem_of_mem_filter member
  exact ⟨kept, without_dead_code_source kept⟩

theorem checked_declared_distinct {options : Options} {modules ordered : List Module}
    (checked : Module.check options modules = .ok ordered) :
    ∀ m ∈ ordered, m.declaredNames.Nodup := by
  obtain ⟨sorted, accepted, rfl⟩ := Module.check_accepted checked
  intro m member
  obtain ⟨origin, listed, rfl⟩ := List.mem_map.mp member
  exact (Module.resolve_declared_names _ origin).symm ▸ accepted.declared origin listed

theorem emitted_declared_distinct [Simplifier] {options : Options} {modules ordered : List Module}
    (checked : Module.check options modules = .ok ordered) {m : Module}
    (member : m ∈ selected options (withoutDeadCode options (optimized options ordered))) :
    m.declaredNames.Nodup := by
  obtain ⟨_, source, inside, _, fewer⟩ := emitted_source member
  have names : source.declaredNames.Nodup := by
    unfold optimized at inside
    split at inside
    · exact checked_declared_distinct checked source inside
    · obtain ⟨origin, listed, rfl⟩ := List.mem_map.mp inside
      rw [Module.optimize_declared_names]
      exact checked_declared_distinct checked origin listed
  exact names.sublist (fewer.map Declaration.name)

theorem emitted_ready [Simplifier] {options : Options} {units : List SourceUnit}
    {modules ordered : List Module}
    (off : options.noOptimizations = true) (read : parseUnits units = .ok modules)
    (checked : Module.check options modules = .ok ordered) {m : Module}
    (member : m ∈ selected options (withoutDeadCode options (optimized options ordered))) :
    m.Ready := by
  obtain ⟨kept, source, inside, name, fewer⟩ := emitted_source member
  have plain : optimized options ordered = ordered := if_pos off
  obtain ⟨sorted, accepted, same⟩ := Module.check_accepted checked
  have distinct : (ordered.map Module.name).Nodup := by
    rw [same, List.map_map]
    exact accepted.order.distinct
  have links : Module.Links (withoutDeadCode options (optimized options ordered)) := by
    rw [plain]
    exact without_dead_code_links
      (Module.distinct_keys distinct (checked_declared_distinct checked)) (same ▸ accepted.links)
  refine ⟨?_, emitted_declared_distinct checked member, ?_, ?_⟩
  · exact fun d there => optimized_formed read checked source inside d (fewer.subset there)
  · intro d value o used
    obtain ⟨origin, named, found⟩ :=
      optimized_found checked inside (fewer.subset value) used
    exact ⟨_, origin, named.trans name, found⟩
  · intro d value o used own
    obtain ⟨before, after, split⟩ := List.append_of_mem kept
    have refers : (m.name, o.name) ∈ (Declaration.value d).references :=
      (Expr.mem_references d.params).mpr ⟨o, used, own, rfl⟩
    rcases links before m after split _ value _ _ refers with ⟨_, here⟩ | ⟨away, _⟩
    · exact here
    · exact absurd rfl away

namespace Emit

open Js (Scope BareName)

theorem statements_use_iff {x : String} {statements : List Js.Statement} :
    Js.statementsUse x statements = true ↔ ∃ s ∈ statements, s.uses x = true := by
  induction statements with
  | nil => simp [Js.statementsUse]
  | cons s rest ih => simp [Js.statementsUse, ih]

theorem declaration_sets {options : Options} {setting : Setting} {d : Declaration} {x : String}
    (set : x ∈ (declaration options setting d).sets) : x = Js.identifier d.name := by
  cases d with
  | value d => exact List.mem_singleton.mp set
  | foreign f => exact absurd set List.not_mem_nil

/-- No other statement in the body sets the variable. What a text in JavaScript sets is not looked
at. -/
structure SetOnlyBy (body : List Js.Statement) (x : String) (s : Js.Statement) : Prop where
  inside : s ∈ body
  only : ∀ other ∈ body, x ∈ other.sets → other = s

structure Bound (options : Options) (m : Module) (outer : List Scope) (u : BareName) (use : Use)
    (around : List (Option Binder)) : Prop extends Placed m.name outer u use around where
  inner : ∀ o, use.occurrence = some o → o.resolved = none → o.qualifier = none ∧
    ∃ b, use.scope.find? (·.name = o.name) = some b ∧ binding? u.text around = some (some b)
  own : ∀ o, use.occurrence = some o → o.qualifier = none → o.resolved = some m.name →
    binding? u.text around = none ∧ ∃ d ∈ m.declarations, d.name = o.name ∧
      SetOnlyBy (m.body options) u.text (declaration options ⟨m.name, false⟩ d)
  chain : use.occurrence = none →
    binding? u.text around = none ∧ SetOnlyBy (m.body options) u.text bindHelper

section Bodies

variable {options : Options} {m : Module}

theorem body_sets (ready : m.Ready) {s : Js.Statement} (inside : s ∈ m.body options) {x : String}
    (set : x ∈ s.sets) :
    (s = bindHelper ∧ x = bindName) ∨ ∃ d ∈ m.declarations,
      s = declaration options ⟨m.name, options.directBlocks⟩ d ∧ x = Js.identifier d.name := by
  rcases List.mem_append.mp inside with front | last
  · rcases List.mem_append.mp front with helper | declared
    · split at helper
      · rw [List.mem_singleton] at helper
        subst helper
        exact Or.inl ⟨rfl, List.mem_singleton.mp set⟩
      · exact absurd helper List.not_mem_nil
    · obtain ⟨d, member, rfl⟩ := List.mem_map.mp declared
      exact Or.inr ⟨d, (Module.mem_ordered_declarations ready.distinct).mp member, rfl,
        declaration_sets set⟩
  · rw [List.mem_singleton] at last
    subst last
    exact absurd set List.not_mem_nil

theorem declaration_in_body (ready : m.Ready) {d : Declaration} (member : d ∈ m.declarations) :
    declaration options ⟨m.name, options.directBlocks⟩ d ∈ m.body options :=
  List.mem_append_left _ (List.mem_append_right _
    (List.mem_map_of_mem ((Module.mem_ordered_declarations ready.distinct).mpr member)))

theorem identifier_ne_chain {name : String} (lexical : Lexical name) :
    Js.identifier name ≠ bindName := (bare_name_plain lexical "" none).1

theorem own_set_only (ready : m.Ready) {d : Declaration} (member : d ∈ m.declarations) :
    SetOnlyBy (m.body options) (Js.identifier d.name)
      (declaration options ⟨m.name, options.directBlocks⟩ d) := by
  refine ⟨declaration_in_body ready member, ?_⟩
  have lexical := (ready.formed d member).lexical
  intro other inside set
  rcases body_sets ready inside set with ⟨_, same⟩ | ⟨e, there, rfl, same⟩
  · exact absurd same (identifier_ne_chain lexical)
  · rw [List.inj_on_of_nodup_map ready.distinct member there
      (Js.identifier_injective lexical (ready.formed e there).lexical same)]

theorem chain_set_only (ready : m.Ready) {d : Declaration} (member : d ∈ m.declarations)
    (used : (declaration options ⟨m.name, options.directBlocks⟩ d).uses bindName = true) :
    SetOnlyBy (m.body options) bindName bindHelper := by
  refine ⟨?_, ?_⟩
  · have needed : Js.statementsUse bindName (m.orderedDeclarations.map
        (declaration options ⟨m.name, options.directBlocks⟩)) = true :=
      statements_use_iff.mpr ⟨_, List.mem_map_of_mem
        ((Module.mem_ordered_declarations ready.distinct).mpr member), used⟩
    rw [Module.body]
    simp only [needed, ↓reduceIte]
    exact List.mem_cons_self
  · intro other inside set
    rcases body_sets ready inside set with ⟨same, _⟩ | ⟨e, there, _, same⟩
    · exact same
    · exact absurd same.symm (identifier_ne_chain (ready.formed e there).lexical)

theorem plain_declaration (off : options.noOptimizations = true) (d : ValueDeclaration) :
    declaration options ⟨m.name, options.directBlocks⟩ (.value d) =
      .var (Js.identifier d.name) (curried d.params (expr ⟨m.name, false⟩ d.body)) := by
  have loops : options.loops = false := by simp [Options.loops, off]
  have blocks : options.directBlocks = false := by simp [Options.directBlocks, off]
  simp [declaration, loops, blocks]

theorem placed_bound (off : options.noOptimizations = true) (ready : m.Ready)
    {d : ValueDeclaration} (value : Declaration.value d ∈ m.declarations) {outer : List Scope}
    {u : BareName} {use : Use} {around : List (Option Binder)}
    (named : u ∈ (curried d.params (expr ⟨m.name, false⟩ d.body)).names outer)
    (needed : use ∈ d.plainUses) (placed : Placed m.name outer u use around) :
    Bound options m outer u use around := by
  have formed : d.Formed := ready.formed _ value
  have written : ∀ o, use.occurrence = some o → o ∈ d.body.occurrences d.params :=
    fun o same => (Expr.plain_uses_occurrences d.body d.params _).subset
      (List.mem_filterMap.mpr ⟨use, needed, same⟩)
  have lexical : ∀ o, use.occurrence = some o → Lexical o.name :=
    fun o same => (Expr.occurrences_lexical formed.body formed.params o (written o same)).1
  refine ⟨placed, ?_, ?_, ?_⟩
  · intro o same resolved
    obtain ⟨modules, source, _, found⟩ := ready.found d value o (written o same)
    rw [resolved] at found
    obtain ⟨plain, inside⟩ := Module.lookup_local found
    obtain ⟨b, first⟩ := (placed.find_binder_iff same).mpr inside
    have spelled : u.text = Js.identifier o.name := by
      rw [placed.spelled same, Occurrence.bareName, resolved]
      rfl
    rw [spelled, placed.binding (lexical o same), first]
    exact ⟨plain, b, rfl, rfl⟩
  · intro o same plain own
    obtain ⟨modules, source, _, found⟩ := ready.found d value o (written o same)
    rw [own] at found
    have free : o.name ∉ o.locals := by
      rcases Module.lookup_value found with ⟨qualified, _⟩ | ⟨_, free, _⟩
      · rw [plain] at qualified
        cases qualified
      · exact free
    have none : use.scope.find? (·.name = o.name) = none := by
      rw [← Option.not_isSome_iff_eq_none, Option.isSome_iff_exists, placed.find_binder_iff same]
      exact free
    obtain ⟨e, declared, name⟩ := List.mem_map.mp (ready.declared d value o (written o same) own)
    have blocks : options.directBlocks = false := by simp [Options.directBlocks, off]
    rw [placed.spelled same, own_bare_name own, placed.binding (lexical o same), none]
    refine ⟨rfl, e, declared, name, ?_⟩
    rw [← name, ← blocks]
    exact own_set_only ready declared
  · intro chain
    have spelled : u.text = bindName := by
      rw [placed.text, Use.text, chain]
      rfl
    have used : (declaration options ⟨m.name, options.directBlocks⟩ (.value d)).uses bindName =
        true := by
      rw [plain_declaration off, ← spelled]
      exact Js.Expr.names_used named
    rw [spelled]
    exact ⟨placed.binding_chain, chain_set_only ready value used⟩

end Bodies

theorem forall₂_members {α β : Type} {r : α → β → Prop} {left : List α} {right : List β}
    (all : List.Forall₂ r left right) :
    List.Forall₂ (fun a b => a ∈ left ∧ b ∈ right ∧ r a b) left right :=
  (List.forall₂_and_left _ _).mpr
    ⟨fun _ => id, ((List.forall₂_and_left _ _).mpr ⟨fun _ => id, all.flip⟩).flip⟩

/-- In the plain code of an accepted program, every bare name is bound by what its use means: a
local name by the function that its innermost binder has become, a name of the module by the
statement of the declaration, and the name of the chaining function by its helper. -/
theorem plain_names_bound [Simplifier] {options : Options} {units : List SourceUnit}
    {modules ordered : List Module} (off : options.noOptimizations = true)
    (read : parseUnits units = .ok modules)
    (checked : Module.check options modules = .ok ordered) {m : Module}
    (member : m ∈ selected options (withoutDeadCode options (optimized options ordered))) :
    m.emit options = .assign (Js.moduleObject m.name)
      (.call (.paren (.function [] (m.body options))) []) ∧
    ∀ d, Declaration.value d ∈ m.declarations →
      (d.plainUses.filterMap Use.occurrence).Perm (d.body.occurrences d.params) ∧
      ∃ front code back, m.body options = front ++ .var (Js.identifier d.name) code :: back ∧
        let outer : List Scope := [⟨[], (Js.statementsSet front).reverse,
          Js.statementsSet (.var (Js.identifier d.name) code :: back)⟩]
        List.Forall₂ (fun u use => ∃ around, Bound options m outer u use around)
          (code.names outer) d.plainUses := by
  have ready := emitted_ready off read checked member
  refine ⟨Module.emit_body, ?_⟩
  intro d value
  refine ⟨Expr.plain_uses_occurrences d.body d.params _, ?_⟩
  have inside : _ ∈ m.body options := declaration_in_body ready value
  rw [plain_declaration off] at inside
  obtain ⟨front, back, split⟩ := List.append_of_mem inside
  refine ⟨front, _, back, split, ?_⟩
  have placed := curried_placed (ready.formed _ value) m.name
    [⟨[], (Js.statementsSet front).reverse, Js.statementsSet (.var (Js.identifier d.name)
      (curried d.params (expr ⟨m.name, false⟩ d.body)) :: back)⟩]
  refine (forall₂_members placed).imp ?_
  rintro u use ⟨named, needed, around, here⟩
  exact ⟨around, placed_bound off ready value named needed here⟩

def nestedUnits : List SourceUnit :=
  [⟨none, "module A where\nf a = a\nmain x = do\n  x <- f x\n  let g = \\y y -> f y\n  f g\n"⟩]

def unoptimized : Options := { plainOptions with noOptimizations := true }

theorem nested_units_names_bound :
    ∃ modules ordered, parseUnits nestedUnits = .ok modules ∧
      Module.check unoptimized modules = .ok ordered ∧
      ∃ m ∈ selected unoptimized (withoutDeadCode unoptimized (optimized unoptimized ordered)),
        ∃ d, Declaration.value d ∈ m.declarations ∧
          d.plainUses.map (Use.text m.name) = ["$bind", "f", "x", "f", "g", "f", "y"] ∧
          ∃ front code back,
            m.body unoptimized = front ++ .var (Js.identifier d.name) code :: back ∧
            let outer : List Scope := [⟨[], (Js.statementsSet front).reverse,
              Js.statementsSet (.var (Js.identifier d.name) code :: back)⟩]
            List.Forall₂ (fun u use => ∃ around, Bound unoptimized m outer u use around)
              (code.names outer) d.plainUses := by
  obtain ⟨modules, ordered, read, checked, m, member, d, value, uses⟩ :=
    has_value (show hasValue unoptimized nestedUnits (fun m d =>
      d.plainUses.map (Use.text m.name) = ["$bind", "f", "x", "f", "g", "f", "y"]) = true by
        decide +kernel)
  exact ⟨modules, ordered, read, checked, m, member, d, value, of_decide_eq_true uses,
    ((plain_names_bound rfl read checked member).2 d value).2⟩

end Emit

end PureJs
