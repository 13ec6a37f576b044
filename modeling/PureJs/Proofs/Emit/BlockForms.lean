import PureJs.Proofs.Emit.Names
import PureJs.Proofs.Program.Formed
import Mathlib.Tactic.Tauto

/-!
The two forms of do blocks. A chain of calls binds every name as the source does. A function that
runs the statements directly has one variable for each name, which exists from the start of the
function and is set whenever a statement binds the name; it binds the names as the source does
exactly if no name is looked up while its variable can hold anything else.
-/

namespace PureJs

namespace Expr

mutual

def outerNames (module : String) : Expr → List Js.OuterName
  | literal _ _ => []
  | array _ items => listOuterNames module items
  | var _ name _ resolved => [⟨Emit.bareName module name resolved, false⟩]
  | app _ function argument => outerNames module function ++ outerNames module argument
  | lambda _ params body =>
    ((outerNames module body).filter (·.text ∉ params.map Js.identifier)).map Js.OuterName.inside
  | cond _ condition yes no =>
    outerNames module condition ++ outerNames module yes ++ outerNames module no
  | binary _ _ left right => outerNames module left ++ outerNames module right
  | negate _ operand => outerNames module operand
  | block _ statements => (statementOuterNames module statements).map Js.OuterName.inside

def listOuterNames (module : String) : List Expr → List Js.OuterName
  | [] => []
  | e :: rest => outerNames module e ++ listOuterNames module rest

def statementOuterNames (module : String) : List Statement → List Js.OuterName
  | [] => []
  | .bind _ name e :: rest | .define _ name e :: rest =>
    outerNames module e ++
      (statementOuterNames module rest).filter (·.text ≠ Js.identifier name)
  | .run _ e :: rest => outerNames module e ++ statementOuterNames module rest

end

def setNames (statements : List Statement) : List String :=
  statements.filterMap fun s => s.name?.map Js.identifier

/-- An expression looks no variable up that is set later on, unless the variable is set by now and
is looked up at once. -/
def Undisturbed (module : String) (before later : List String) (e : Expr) : Prop :=
  ∀ x ∈ e.outerNames module, x.text ∈ later → x.text ∈ before ∧ x.delayed = false

mutual

/-- No statement of a do block in the expression is disturbed by itself or by a later statement of
its block. -/
def Steady (module : String) : Expr → Prop
  | literal _ _ | var _ _ _ _ => True
  | array _ items => ListSteady module items
  | app _ function argument => function.Steady module ∧ argument.Steady module
  | lambda _ _ body => body.Steady module
  | cond _ condition yes no => condition.Steady module ∧ yes.Steady module ∧ no.Steady module
  | binary _ _ left right => left.Steady module ∧ right.Steady module
  | negate _ operand => operand.Steady module
  | block _ statements => StatementsSteady module [] statements

def ListSteady (module : String) : List Expr → Prop
  | [] => True
  | e :: rest => e.Steady module ∧ ListSteady module rest

def StatementsSteady (module : String) (before : List String) : List Statement → Prop
  | [] => True
  | .bind _ name e :: rest | .define _ name e :: rest =>
    e.Steady module ∧ e.Undisturbed module before (Js.identifier name :: setNames rest) ∧
      StatementsSteady module (Js.identifier name :: before) rest
  | .run _ e :: rest =>
    e.Steady module ∧ e.Undisturbed module before (setNames rest) ∧
      StatementsSteady module before rest

end

end Expr

namespace Emit

open Js (Scope BareName OuterName Settled)

theorem settled_parameter {param text : String} {delayed : Bool} {outer : List Scope} :
    Settled text delayed (parameterScope param :: outer) ↔
      (text ≠ param → Settled text true outer) := by
  by_cases same : text = param <;> simp [Settled, parameterScope, same]

theorem settled_parameters {params : List String} (some : params ≠ []) {text : String}
    {delayed : Bool} {outer : List Scope} :
    Settled text delayed (parameterScopes params ++ outer) ↔
      (text ∉ params.map Js.identifier → Settled text true outer) := by
  induction params generalizing outer with
  | nil => exact absurd rfl some
  | cons param rest ih =>
    rw [parameter_scopes_cons]
    cases rest with
    | nil => simpa [parameterScopes] using settled_parameter
    | cons second others =>
      rw [ih (by simp), settled_parameter]
      simp only [List.map_cons, List.mem_cons, not_or]
      tauto

/-- A name in a statement of a direct block is settled exactly if the statement is not disturbed
there, and the name is settled outside unless the block has set it. -/
theorem settled_in_block {x : OuterName} {before after : List String} {outer : List Scope} :
    Settled x.text x.delayed (⟨[], before, after⟩ :: outer) ↔
      (x.text ∈ after → x.text ∈ before ∧ x.delayed = false) ∧
        (x.text ∉ before → Settled x.text true outer) := by
  by_cases early : x.text ∈ before <;> by_cases late : x.text ∈ after <;>
    simp [Settled, early, late]

theorem undisturbed_iff {module : String} {e : Expr} {before after : List String}
    {outer : List Scope} :
    (∀ x ∈ e.outerNames module, Settled x.text x.delayed (⟨[], before, after⟩ :: outer)) ↔
      e.Undisturbed module before after ∧
        ∀ x ∈ e.outerNames module, x.text ∉ before → Settled x.text true outer := by
  simp only [settled_in_block, Expr.Undisturbed, ← forall_and]

theorem direct_sets (setting : Setting) {statements : List Statement}
    (last : statements.getLast?.any Statement.isRun = true) :
    Js.statementsSet (direct setting statements) = Expr.setNames statements := by
  match statements, last with
  | [.run _ e], _ => rfl
  | .bind _ name e :: second :: rest, last | .define _ name e :: second :: rest, last =>
    have ending : (second :: rest).getLast?.any Statement.isRun = true := by simpa using last
    simp [direct, Js.statementsSet, Js.Statement.sets, direct_sets setting ending, Expr.setNames,
      Statement.name?]
  | .run _ e :: second :: rest, last =>
    have ending : (second :: rest).getLast?.any Statement.isRun = true := by simpa using last
    simp [direct, Js.statementsSet, Js.Statement.sets, direct_sets setting ending, Expr.setNames,
      Statement.name?]

mutual

theorem expr_settled_iff (module : String) {e : Expr} (formed : e.Formed) (scopes : List Scope) :
    (∀ u ∈ (expr ⟨module, true⟩ e).names scopes, u.Settled) ↔
      e.Steady module ∧ ∀ x ∈ e.outerNames module, Settled x.text x.delayed scopes := by
  cases e with
  | literal place value => simp [expr, Expr.Steady, Expr.outerNames]
  | array place items => exact list_settled_iff module formed scopes
  | var place name qualifier resolved =>
    simp [expr, Expr.Steady, Expr.outerNames, BareName.Settled]
  | app place function argument =>
    simp only [expr, Js.Expr.names, Js.listNames, names_callee, List.append_nil,
      List.forall_mem_append, expr_settled_iff module formed.1 scopes,
      expr_settled_iff module formed.2 scopes, Expr.Steady, Expr.outerNames]
    tauto
  | lambda place params body =>
    rw [expr, names_curried, expr_settled_iff module formed.2.2]
    simp only [Expr.Steady, Expr.outerNames, List.forall_mem_map, List.mem_filter,
      decide_eq_true_eq, and_imp, settled_parameters formed.1, OuterName.inside]
  | cond place condition yes no =>
    simp only [expr, Js.Expr.names, names_operand, List.forall_mem_append,
      expr_settled_iff module formed.1 scopes, expr_settled_iff module formed.2.1 scopes,
      expr_settled_iff module formed.2.2 scopes, Expr.Steady, Expr.outerNames]
    tauto
  | binary place op left right =>
    simp only [expr, Js.Expr.names, names_operand, List.forall_mem_append,
      expr_settled_iff module formed.1 scopes, expr_settled_iff module formed.2 scopes, Expr.Steady,
      Expr.outerNames]
    tauto
  | negate place operand =>
    have inner : operand.Formed := formed
    simp only [expr, Js.Expr.names, names_operand, expr_settled_iff module inner scopes,
      Expr.Steady, Expr.outerNames]
  | block place statements =>
    have whole := direct_settled_iff module formed.1 formed.2 scopes []
    simpa [expr, Js.Expr.names, Expr.Steady, Expr.outerNames, OuterName.inside] using whole

theorem list_settled_iff (module : String) {items : List Expr} (formed : Expr.ListFormed items)
    (scopes : List Scope) :
    (∀ u ∈ Js.listNames scopes (list ⟨module, true⟩ items), u.Settled) ↔
      Expr.ListSteady module items ∧
        ∀ x ∈ Expr.listOuterNames module items, Settled x.text x.delayed scopes := by
  cases items with
  | nil => simp [list, Js.listNames, Expr.ListSteady, Expr.listOuterNames]
  | cons e rest =>
    simp only [list, Js.listNames, List.forall_mem_append, expr_settled_iff module formed.1 scopes,
      list_settled_iff module formed.2 scopes, Expr.ListSteady, Expr.listOuterNames]
    tauto

theorem direct_settled_iff (module : String) {statements : List Statement}
    (formed : Expr.StatementsFormed statements)
    (last : statements.getLast?.any Statement.isRun = true) (outer : List Scope)
    (before : List String) :
    (∀ u ∈ Js.bodyNames outer [] before [] (direct ⟨module, true⟩ statements), u.Settled) ↔
      Expr.StatementsSteady module before statements ∧
        ∀ x ∈ Expr.statementOuterNames module statements, x.text ∉ before →
          Settled x.text true outer := by
  match statements, formed, last with
  | [.run _ e], formed, _ =>
    simp only [direct, Js.bodyNames, Js.Statement.names, names_perform, List.append_nil,
      expr_settled_iff module formed.1, undisturbed_iff, Expr.StatementsSteady,
      Expr.statementOuterNames, Js.statementsSet, Js.Statement.sets, Expr.setNames,
      List.filterMap_nil, and_true, and_assoc]
  | .bind _ name e :: second :: rest, formed, last
  | .define _ name e :: second :: rest, formed, last =>
    have ending : (second :: rest).getLast?.any Statement.isRun = true := by simpa using last
    have others := direct_settled_iff module formed.2.2 ending outer (Js.identifier name :: before)
    have here := expr_settled_iff module formed.2.1
      (⟨[], before, Js.identifier name :: Expr.setNames (second :: rest)⟩ :: outer)
    simp only [direct, Js.bodyNames, Js.Statement.names, List.append_nil, Js.statementsSet,
      Js.Statement.sets, direct_sets _ ending, List.forall_mem_append, names_perform,
      List.reverse_singleton, List.singleton_append, here, others, undisturbed_iff]
    simp only [Expr.StatementsSteady, Expr.statementOuterNames, List.forall_mem_append,
      List.mem_filter, decide_eq_true_eq, List.mem_cons, not_or]
    constructor
    · rintro ⟨⟨steady, undisturbed, own⟩, later, rest⟩
      exact ⟨⟨steady, undisturbed, later⟩, own,
        fun x member off => rest x member.1 ⟨member.2, off⟩⟩
    · rintro ⟨⟨steady, undisturbed, later⟩, own, rest⟩
      exact ⟨⟨steady, undisturbed, own⟩, later,
        fun x member off => rest x ⟨member, off.1⟩ off.2⟩
  | .run _ e :: second :: rest, formed, last =>
    have ending : (second :: rest).getLast?.any Statement.isRun = true := by simpa using last
    have others := direct_settled_iff module formed.2 ending outer before
    have here := expr_settled_iff module formed.1
      (⟨[], before, Expr.setNames (second :: rest)⟩ :: outer)
    simp only [direct, Js.bodyNames, Js.Statement.names, List.append_nil, Js.statementsSet,
      Js.Statement.sets, direct_sets _ ending, List.forall_mem_append, names_perform,
      List.reverse_nil, List.nil_append, here, others, undisturbed_iff]
    simp only [Expr.StatementsSteady, Expr.statementOuterNames, List.forall_mem_append]
    constructor
    · rintro ⟨⟨steady, undisturbed, own⟩, later, rest⟩
      exact ⟨⟨steady, undisturbed, later⟩, own, rest⟩
    · rintro ⟨⟨steady, undisturbed, later⟩, own, rest⟩
      exact ⟨⟨steady, undisturbed, own⟩, later, rest⟩

end

theorem settled_without_later {text : String} {delayed : Bool} {scopes : List Scope}
    (none : ∀ s ∈ scopes, s.after = []) : Settled text delayed scopes := by
  induction scopes generalizing delayed with
  | nil => trivial
  | cons s outer ih =>
    have here := none s List.mem_cons_self
    have further : Settled text true outer :=
      ih fun other member => none other (List.mem_cons_of_mem _ member)
    simp only [Settled, here, List.append_nil, List.not_mem_nil, not_false_eq_true, implies_true,
      and_true]
    split
    · assumption
    · exact further

theorem meaning_aligned_iff {blocks : Bool} {module : String} {u : BareName} {use : Occurrence}
    (aligned : Aligned blocks module u use) : u.meaning = use.meaning module ↔ u.Settled := by
  rw [← Js.meaning_settled_iff, Occurrence.meaning, ← aligned.text,
    aligned.stands.binders.innermost aligned.plain.2]

theorem meanings_aligned_iff {blocks : Bool} {module : String} {us : List BareName}
    {uses : List Occurrence} (aligned : List.Forall₂ (Aligned blocks module) us uses) :
    us.map BareName.meaning = uses.map (Occurrence.meaning module) ↔ ∀ u ∈ us, u.Settled := by
  induction aligned with
  | nil => simp
  | cons first others ih =>
    simp only [List.map_cons, List.cons.injEq, meaning_aligned_iff first, ih, List.forall_mem_cons]

theorem chained_settled {module : String} {us : List BareName} {uses : List Occurrence}
    (aligned : List.Forall₂ (Aligned false module) us uses) : ∀ u ∈ us, u.Settled := by
  induction aligned with
  | nil => exact fun u none => absurd none List.not_mem_nil
  | cons first others ih =>
    exact List.forall_mem_cons.mpr ⟨settled_without_later (first.stands.chained rfl), ih⟩

/-- The code of a value declaration as a plain function of its parameters. -/
def plainFunction (setting : Setting) (d : ValueDeclaration) : Js.Expr :=
  curried d.params (expr setting d.body)

theorem plain_function_matches (blocks : Bool) (module : String) {d : ValueDeclaration}
    (formed : d.Formed) :
    Matches blocks module ((plainFunction ⟨module, blocks⟩ d).names [])
      (d.body.occurrences d.params) := by
  have outside : Stands blocks [] [] :=
    ⟨fun _ _ => rfl, fun _ _ none => absurd none List.not_mem_nil⟩
  have inside := outside.parameters d.params
  rw [List.append_nil d.params] at inside
  rw [plainFunction, names_curried]
  exact expr_matches formed.body inside

theorem plain_function_settled_iff (module : String) {d : ValueDeclaration} (formed : d.Formed) :
    (∀ u ∈ (plainFunction ⟨module, true⟩ d).names [], u.Settled) ↔ d.body.Steady module := by
  rw [plainFunction, names_curried, expr_settled_iff module formed.body, and_iff_left_iff_imp]
  intro _ x _
  apply settled_without_later
  intro s member
  rw [List.append_nil] at member
  obtain ⟨param, _, rfl⟩ := List.mem_map.mp (List.mem_reverse.mp member)
  rfl

/-- In the code of every value of an accepted program, chained blocks give each bare name the binder
that it has in the source; direct blocks do so exactly if no statement of them is disturbed. -/
theorem block_forms_bind_names [Simplifier] {options : Options} {units : List SourceUnit}
    {modules ordered : List Module} (read : parseUnits units = .ok modules)
    (checked : Module.check options modules = .ok ordered) {m : Module}
    (member : m ∈ optimized options ordered) {d : ValueDeclaration}
    (value : Declaration.value d ∈ m.declarations) :
    ((((plainFunction ⟨m.name, false⟩ d).names []).filter (·.text ≠ bindName)).map
        BareName.meaning).Perm
      ((d.body.occurrences d.params).map (Occurrence.meaning m.name)) ∧
    (((plainFunction ⟨m.name, true⟩ d).names []).map BareName.meaning =
        (d.body.occurrences d.params).map (Occurrence.meaning m.name) ↔
      d.body.Steady m.name) := by
  have formed : d.Formed := optimized_formed read checked m member _ value
  constructor
  · obtain ⟨vs, perm, aligned, _⟩ := plain_function_matches false m.name formed
    rw [← (meanings_aligned_iff aligned).mpr (chained_settled aligned)]
    exact perm.map BareName.meaning
  · obtain ⟨vs, _, aligned, same⟩ := plain_function_matches true m.name formed
    rw [← same rfl] at aligned
    rw [meanings_aligned_iff aligned, plain_function_settled_iff m.name formed]

def reboundUnits : List SourceUnit :=
  [⟨none, "module A where\nx = 1\nf a = a\nmain = do\n  y <- f x\n  x <- f y\n  f x\n"⟩]

def orderedUnits : List SourceUnit :=
  [⟨none, "module A where\nf a = a\nmain x = do\n  x <- f 1\n  let g = \\y -> x\n  f g\n"⟩]

def plainOptions : Options := { Options.default with noPrelude := true }

theorem ordered_block_binds_names :
    ∃ modules ordered, parseUnits orderedUnits = .ok modules ∧
      Module.check plainOptions modules = .ok ordered ∧
      ∃ m ∈ optimized plainOptions ordered, ∃ d, Declaration.value d ∈ m.declarations ∧
        d.name = "main" ∧
        (((plainFunction ⟨m.name, true⟩ d).names []).map BareName.meaning =
            (d.body.occurrences d.params).map (Occurrence.meaning m.name) ↔
          d.body.Steady m.name) := by
  obtain ⟨modules, ordered, read, checked, m, member, d, value, main⟩ :=
    has_value (show hasValue plainOptions orderedUnits (fun _ d => d.name = "main") = true by
      decide +kernel)
  exact ⟨modules, ordered, read, checked, m, member, d, value, of_decide_eq_true main,
    (block_forms_bind_names read checked member value).2⟩

theorem rebound_block_differs :
    ∃ modules ordered, parseUnits reboundUnits = .ok modules ∧
      Module.check plainOptions modules = .ok ordered ∧
      ∃ m ∈ optimized plainOptions ordered, ∃ d, Declaration.value d ∈ m.declarations ∧
        ((plainFunction ⟨m.name, true⟩ d).names []).map BareName.meaning ≠
          (d.body.occurrences d.params).map (Occurrence.meaning m.name) := by
  obtain ⟨modules, ordered, read, checked, m, member, d, value, differs⟩ :=
    has_value (show hasValue plainOptions reboundUnits (fun m d =>
      ((plainFunction ⟨m.name, true⟩ d).names []).map BareName.meaning ≠
        (d.body.occurrences d.params).map (Occurrence.meaning m.name)) = true by decide +kernel)
  exact ⟨modules, ordered, read, checked, m, member, d, value, of_decide_eq_true differs⟩

end Emit

end PureJs
