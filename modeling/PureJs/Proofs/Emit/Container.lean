import PureJs.Proofs.Emit.ModuleScopes
import PureJs.Proofs.Emit.SelfCalls
import PureJs.Proofs.Js.Unbound

/-!
The variable that holds all modules. The code around takes names for itself that the source cannot
write, but this one it can: the container is reached wherever the source does not bind its name.
-/

namespace PureJs

namespace Expr

mutual

/-- A lambda or a do block in the expression binds the name. -/
def binds (x : String) : Expr → Bool
  | literal _ _ | var _ _ _ _ => false
  | array _ items => listBind x items
  | app _ function argument => function.binds x || argument.binds x
  | lambda _ params body => params.contains x || body.binds x
  | cond _ condition yes no => condition.binds x || yes.binds x || no.binds x
  | binary _ _ left right => left.binds x || right.binds x
  | negate _ operand => operand.binds x
  | block _ statements => statementsBind x statements

def listBind (x : String) : List Expr → Bool
  | [] => false
  | e :: rest => e.binds x || listBind x rest

def statementsBind (x : String) : List Statement → Bool
  | [] => false
  | .bind _ name e :: rest | .define _ name e :: rest =>
    name = x || e.binds x || statementsBind x rest
  | .run _ e :: rest => e.binds x || statementsBind x rest

end

theorem unapply_free {x : String} {e : Expr} (free : e.binds x = false) :
    ∀ arg ∈ e.unapply.2, arg.binds x = false := by
  match e with
  | .app place function argument =>
    simp only [binds, Bool.or_eq_false_iff] at free
    rw [unapply_app]
    exact List.forall_mem_append.mpr
      ⟨unapply_free free.1, List.forall_mem_singleton.mpr free.2⟩
  | .literal .. | .array .. | .var .. | .lambda .. | .cond .. | .binary .. | .negate ..
  | .block .. => exact fun arg none => absurd none List.not_mem_nil

end Expr

/-- The declaration has a parameter of the name, or its body binds the name. -/
def ValueDeclaration.binds (x : String) (d : ValueDeclaration) : Bool :=
  d.params.contains x || d.body.binds x

namespace Js

theorem spelled_plain {name : List Char} (plain : '$' ∉ name.flatMap spellChar) :
    name.flatMap spellChar = name := by
  induction name with
  | nil => rfl
  | cons c rest ih =>
    rw [List.flatMap_cons] at plain ⊢
    simp only [List.mem_append, not_or] at plain
    by_cases prime : c = '\''
    · exact absurd (by simp [spellChar, prime]) plain.1
    · simp [spellChar, prime, ih plain.2]

theorem identifier_eq_container {name : String} :
    identifier name = container ↔ name = container := by
  have chars : container.toList = ['_', 'p', 's'] := by decide
  constructor
  · intro same
    unfold identifier at same
    dsimp only at same
    split at same
    · have begins := congrArg String.toList same
      rw [String.toList_append, chars] at begins
      exact absurd (List.cons.inj begins).1 (by decide)
    · have spelled := congrArg String.toList same
      rw [spelled_chars, chars] at spelled
      have unchanged := spelled_plain (by rw [spelled]; decide)
      rw [spelled] at unchanged
      exact String.toList_injective (by rw [← unchanged, chars])
  · intro same
    subst same
    decide

end Js

namespace Emit

open Js (Scope BareName container)

theorem copy_ne_container (param : String) : copyName param ≠ container := by
  intro same
  have chars := congrArg String.toList same
  rw [copy_chars] at chars
  exact absurd (List.cons.inj chars).1 (by decide)

theorem next_ne_container (param : String) : nextName param ≠ container := by
  intro same
  have chars := congrArg String.toList same
  rw [next_chars] at chars
  exact absurd (List.cons.inj chars).1 (by decide)

section Pieces

variable (x : String)

@[simp] theorem binds_giving (param : String) (code : Js.Expr) :
    (giving param code).binds x = (decide (x = param) || code.binds x) := by
  simp [giving, Js.Expr.binds, Js.statementsBind, Js.Statement.binds]

@[simp] theorem binds_operand (e : Expr) (code : Js.Expr) :
    (asOperand e code).binds x = code.binds x := by
  unfold asOperand
  split <;> rfl

@[simp] theorem binds_callee (e : Expr) (code : Js.Expr) :
    (asCallee e code).binds x = code.binds x := by
  unfold asCallee
  split <;> rfl

@[simp] theorem binds_perform (e : Expr) (code : Js.Expr) :
    (perform e code).binds x = code.binds x := by
  simp [perform, Js.Expr.binds, Js.listBinds]

@[simp] theorem binds_literal (value : Literal) : (literal value).binds x = false := by
  cases value <;> rfl

@[simp] theorem binds_var (setting : Setting) (name : String) (resolved : Option String) :
    (var setting name resolved).binds x = false := by
  unfold var Js.select Js.moduleObject
  split
  · rfl
  · split
    · rfl
    · split <;> rfl

end Pieces

theorem curried_free {params : List String} (others : container ∉ params) {code : Js.Expr}
    (free : code.binds container = false) : (curried params code).binds container = false := by
  induction params with
  | nil => exact free
  | cons param rest ih =>
    simp only [List.mem_cons, not_or] at others
    have other : container ≠ Js.identifier param := by
      intro same
      exact others.1 (Js.identifier_eq_container.mp same.symm).symm
    have inner := ih others.2
    simp only [curried] at inner
    simp [curried, inner, other]

section Free

variable {setting : Setting}

mutual

theorem expr_free {e : Expr} (free : e.binds container = false) :
    (expr setting e).binds container = false := by
  cases e with
  | literal place value => exact binds_literal _ value
  | array place items => exact list_free free
  | var place name qualifier resolved => exact binds_var _ setting name resolved
  | app place function argument =>
    simp only [Expr.binds, Bool.or_eq_false_iff] at free
    simp [expr, Js.Expr.binds, Js.listBinds, expr_free free.1, expr_free free.2]
  | lambda place params body =>
    simp only [Expr.binds, Bool.or_eq_false_iff] at free
    exact curried_free (by simpa using free.1) (expr_free free.2)
  | cond place condition yes no =>
    simp only [Expr.binds, Bool.or_eq_false_iff] at free
    simp [expr, Js.Expr.binds, expr_free free.1.1, expr_free free.1.2, expr_free free.2]
  | binary place op left right =>
    simp only [Expr.binds, Bool.or_eq_false_iff] at free
    simp [expr, Js.Expr.binds, expr_free free.1, expr_free free.2]
  | negate place operand =>
    have inner : operand.binds container = false := free
    simp [expr, Js.Expr.binds, expr_free inner]
  | block place statements =>
    have inside : Expr.statementsBind container statements = false := free
    unfold expr
    split
    · simp [Js.Expr.binds, direct_free inside]
    · exact chained_free inside

theorem list_free {items : List Expr} (free : Expr.listBind container items = false) :
    Js.listBinds container (list setting items) = false := by
  cases items with
  | nil => rfl
  | cons e rest =>
    simp only [Expr.listBind, Bool.or_eq_false_iff] at free
    simp [list, Js.listBinds, expr_free free.1, list_free free.2]

theorem direct_free {statements : List Statement}
    (free : Expr.statementsBind container statements = false) :
    Js.statementsBind container (direct setting statements) = false := by
  match statements with
  | [] => rfl
  | [.bind _ _ e] | [.define _ _ e] =>
    simp only [Expr.statementsBind, Bool.or_eq_false_iff] at free
    simp [direct, Js.statementsBind, Js.Statement.binds, expr_free free.1.2]
  | [.run _ e] =>
    simp only [Expr.statementsBind, Bool.or_eq_false_iff] at free
    simp [direct, Js.statementsBind, Js.Statement.binds, expr_free free.1]
  | .bind _ name e :: second :: rest | .define _ name e :: second :: rest =>
    unfold Expr.statementsBind at free
    simp only [Bool.or_eq_false_iff, decide_eq_false_iff_not] at free
    simp [direct, Js.statementsBind, Js.Statement.binds, expr_free free.1.2,
      direct_free free.2, Js.identifier_eq_container, free.1.1]
  | .run _ e :: second :: rest =>
    unfold Expr.statementsBind at free
    simp only [Bool.or_eq_false_iff] at free
    simp [direct, Js.statementsBind, Js.Statement.binds, expr_free free.1, direct_free free.2]

theorem chained_free {statements : List Statement}
    (free : Expr.statementsBind container statements = false) :
    (chained setting statements).binds container = false := by
  match statements with
  | [] => rfl
  | [.bind _ _ e] | [.define _ _ e] =>
    simp only [Expr.statementsBind, Bool.or_eq_false_iff] at free
    exact expr_free free.1.2
  | [.run _ e] =>
    simp only [Expr.statementsBind, Bool.or_eq_false_iff] at free
    exact expr_free free.1
  | .bind _ name e :: second :: rest | .define _ name e :: second :: rest =>
    unfold Expr.statementsBind at free
    simp only [Bool.or_eq_false_iff, decide_eq_false_iff_not] at free
    have other : container ≠ Js.identifier name := fun same =>
      free.1.1 (Js.identifier_eq_container.mp same.symm)
    simp [chained, Js.Expr.binds, Js.listBinds, expr_free free.1.2, chained_free free.2, other]
  | .run _ e :: second :: rest =>
    unfold Expr.statementsBind at free
    simp only [Bool.or_eq_false_iff] at free
    have other : container ≠ unusedName := by decide
    simp [chained, Js.Expr.binds, Js.listBinds, expr_free free.1, chained_free free.2, other]

end

theorem statements_bind_append (x : String) (front back : List Js.Statement) :
    Js.statementsBind x (front ++ back) =
      (Js.statementsBind x front || Js.statementsBind x back) := by
  induction front with
  | nil => rfl
  | cons s rest ih => simp [Js.statementsBind, ih, Bool.or_assoc]

theorem statements_bind_map {α : Type} {x : String} (f : α → Js.Statement) {items : List α}
    (each : ∀ item ∈ items, (f item).binds x = false) :
    Js.statementsBind x (items.map f) = false := by
  induction items with
  | nil => rfl
  | cons item rest ih =>
    rw [List.forall_mem_cons] at each
    simp [Js.statementsBind, each.1, ih each.2]

variable {d : ValueDeclaration}

theorem tail_free (others : container ∉ d.params) {e : Expr} (free : e.binds container = false) :
    Js.statementsBind container (tail setting d e) = false := by
  induction e using ValueDeclaration.hasTailCall.induct with
  | case1 place condition yes no ihYes ihNo =>
    simp only [Expr.binds, Bool.or_eq_false_iff] at free
    simp [tail, Js.statementsBind, Js.Statement.binds, expr_free free.1.1, ihYes free.1.2,
      ihNo free.2]
  | case2 e other =>
    rw [tail_other setting d other]
    cases call : d.selfCall? setting.module e with
    | none => simp [Js.statementsBind, Js.Statement.binds, expr_free free]
    | some args =>
      have given : ∀ arg ∈ args, arg.binds container = false := by
        rw [← (ValueDeclaration.self_call_eq call).2.1]
        exact Expr.unapply_free free
      have next : Js.statementsBind container ((d.params.zip args).map fun arg =>
          .var (nextName arg.1) (expr setting arg.2)) = false :=
        statements_bind_map _ (by
          intro arg member
          simp [Js.Statement.binds, next_ne_container,
            expr_free (given arg.2 (List.of_mem_zip member).2)])
      have assigns : Js.statementsBind container (d.params.map fun param =>
          .assign (.name (Js.identifier param)) (.name (nextName param))) = false :=
        statements_bind_map _ (by
          intro param member
          have other : param ≠ container := fun same => others (same ▸ member)
          simp [Js.Statement.binds, Js.Expr.binds, Js.identifier_eq_container, other])
      simp only [statements_bind_append, next, assigns]
      rfl

theorem loop_function_free (others : container ∉ d.params)
    (free : d.body.binds container = false) (params : List String) :
    (loopFunction setting d params).binds container = false := by
  induction params with
  | nil => rfl
  | cons param rest ih =>
    have other : container ≠ copyName param := (copy_ne_container param).symm
    cases rest with
    | cons second more => simp [loopFunction, ih, other]
    | nil =>
      have copies : Js.statementsBind container (d.params.map fun param =>
          .var (Js.identifier param) (.name (copyName param))) = false :=
        statements_bind_map _ (by
          intro param member
          have other : param ≠ container := fun same => others (same ▸ member)
          simp [Js.Statement.binds, Js.Expr.binds, Js.identifier_eq_container, other])
      simp only [loopFunction, loopBody, Js.Expr.binds, statements_bind_append, copies,
        Js.statementsBind, Js.Statement.binds, tail_free others free]
      simpa using other

end Free

theorem value_code_free (options : Options) (setting : Setting) {d : ValueDeclaration}
    (free : d.binds container = false) :
    ∃ code, declaration options setting (.value d) = .var (Js.identifier d.name) code ∧
      code.binds container = false := by
  simp only [ValueDeclaration.binds, Bool.or_eq_false_iff] at free
  have others : container ∉ d.params := by simpa using free.1
  refine ⟨_, rfl, ?_⟩
  split
  · exact loop_function_free others free.2 d.params
  · exact curried_free others (expr_free free.2)

theorem module_body_sets (options : Options) {m : Module} (distinct : m.declaredNames.Nodup)
    (own : container ∉ m.declaredNames) : container ∉ Js.statementsSet (m.body options) := by
  have each : ∀ s ∈ m.body options, container ∉ s.sets := by
    intro s inside set
    rcases List.mem_append.mp inside with front | last
    · rcases List.mem_append.mp front with helper | declared
      · split at helper
        · rw [List.mem_singleton.mp helper] at set
          exact absurd (List.mem_singleton.mp set) (by decide)
        · exact absurd helper List.not_mem_nil
      · obtain ⟨d, member, rfl⟩ := List.mem_map.mp declared
        have named := Js.identifier_eq_container.mp (declaration_sets set).symm
        exact own (named ▸
          List.mem_map_of_mem ((Module.mem_ordered_declarations distinct).mp member))
    · rw [List.mem_singleton.mp last] at set
      exact absurd set List.not_mem_nil
  generalize m.body options = body at each
  induction body with
  | nil => simp [Js.statementsSet]
  | cons s rest ih =>
    rw [List.forall_mem_cons] at each
    simp [Js.statementsSet, each.1, ih each.2]

/-- The function around the whole program, whose parameter is the container. -/
def wrapper : Scope := ⟨[container], [], []⟩

/-- No function between the wrapper of the program and the bare name binds the container's name, so
that the name, if it is this one, means the wrapper's parameter. -/
structure ReachesContainer (u : BareName) : Prop where
  between : ∃ inner, u.scopes = inner ++ [wrapper] ∧ ∀ s ∈ inner, container ∉ s.binders
  bound : u.text = container → u.bindings = [.binder 1]

theorem within_reaches {u : BareName} (within : Js.Within container [wrapper] u) :
    ReachesContainer u := by
  obtain ⟨inner, same, free⟩ := within
  refine ⟨⟨inner, same, free⟩, ?_⟩
  intro text
  rw [BareName.bindings, text, same, Js.bindings_between free]
  cases inner.isEmpty <;> decide

theorem statements_set_append (front back : List Js.Statement) :
    Js.statementsSet (front ++ back) = Js.statementsSet front ++ Js.statementsSet back := by
  induction front with
  | nil => rfl
  | cons s rest ih => simp [Js.statementsSet, ih]

theorem body_names_split (outer : List Scope) (params before after : List String)
    (front : List Js.Statement) (s : Js.Statement) (back : List Js.Statement) :
    s.names outer params ((Js.statementsSet front).reverse ++ before)
        (Js.statementsSet (s :: back) ++ after) (Js.statementsSet back ++ after) ⊆
      Js.bodyNames outer params before after (front ++ s :: back) := by
  induction front generalizing before with
  | nil => exact List.subset_append_left _ _
  | cons first rest ih =>
    have inner := ih (first.sets.reverse ++ before)
    rw [← List.append_assoc, ← List.reverse_append] at inner
    exact List.Subset.trans inner (List.subset_append_right _ _)

def programNames (program : Js.Program) : List BareName :=
  Js.bodyNames [] [container] [] [] program.body

theorem program_sets (options : Options) (header : List String) (output : List Module) :
    Js.statementsSet (Module.emitProgram options header output).body = [] := by
  unfold Module.emitProgram
  induction output with
  | nil => cases options.entryModule <;> rfl
  | cons m rest ih => exact ih

theorem module_names_in_program {options : Options} {header : List String} {output : List Module}
    {m : Module} (member : m ∈ output) :
    Js.bodyNames [wrapper] [] [] [] (m.body options) ⊆
      programNames (Module.emitProgram options header output) := by
  have inside : m.emit options ∈ (Module.emitProgram options header output).body :=
    List.mem_append_left _ (List.mem_map_of_mem member)
  obtain ⟨front, back, split⟩ := List.append_of_mem inside
  have silent := program_sets options header output
  rw [split, statements_set_append, List.append_eq_nil_iff] at silent
  have behind : Js.statementsSet back = [] := silent.2
  have names := body_names_split [] [container] [] [] front (m.emit options) back
  rw [silent.1, silent.2, behind] at names
  rw [programNames, split]
  intro u named
  apply names
  simp only [Module.emit_body, Js.Statement.names, Js.Expr.names, Js.listNames, List.append_nil]
  exact List.mem_append_right _ named

/-- In an accepted program, the container is reached from everywhere in the code of a value, if the
source gives its name neither to a value of the module nor to anything bound inside the value. -/
theorem container_reached [Simplifier] {options : Options} {header : List String}
    {modules ordered : List Module}
    (checked : Module.check options modules = .ok ordered) {m : Module}
    (member : m ∈ selected options (withoutDeadCode options (optimized options ordered)))
    (own : container ∉ m.declaredNames) {d : ValueDeclaration}
    (value : Declaration.value d ∈ m.declarations) (free : d.binds container = false) :
    ∃ before code after, m.body options = before ++ .var (Js.identifier d.name) code :: after ∧
      ∀ u ∈ code.names [⟨[], (Js.statementsSet before).reverse,
          Js.statementsSet (.var (Js.identifier d.name) code :: after)⟩, wrapper],
        u ∈ programNames (Module.emitProgram options header
          (selected options (withoutDeadCode options (optimized options ordered)))) ∧
        ReachesContainer u := by
  have distinct := emitted_declared_distinct checked member
  obtain ⟨code, same, silent⟩ := value_code_free options ⟨m.name, options.directBlocks⟩ free
  have inside : .var (Js.identifier d.name) code ∈ m.body options := by
    rw [← same]
    exact List.mem_append_left _ (List.mem_append_right _
      (List.mem_map_of_mem ((Module.mem_ordered_declarations distinct).mpr value)))
  obtain ⟨before, after, split⟩ := List.append_of_mem inside
  refine ⟨before, code, after, split, ?_⟩
  intro u named
  constructor
  · apply module_names_in_program member
    have names := body_names_split [wrapper] [] [] [] before
      (.var (Js.identifier d.name) code) after
    simp only [List.append_nil] at names
    rw [split]
    exact names named
  · have sets := module_body_sets options distinct own
    rw [split] at sets
    apply within_reaches
    refine (Js.Expr.names_within silent named).outer ?_
    rw [statements_set_append] at sets
    simpa [Scope.binders] using sets

def borrowingUnits : List SourceUnit :=
  [⟨none, "module A where\nx = 1\nlog v = v\n"⟩,
    ⟨none, "module B where\nimport A\nf _p = do\n  y <- log x\n  log (\\_ps' -> x + y)\n"⟩]

def shadowingUnits : List SourceUnit :=
  [⟨none, "module A where\nx = 1\n"⟩, ⟨none, "module B where\nimport A\nf _ps = x\n"⟩]

theorem borrowed_container_reached :
    ∃ modules ordered, parseUnits borrowingUnits = .ok modules ∧
      Module.check plainOptions modules = .ok ordered ∧
      ∃ m ∈ selected plainOptions (withoutDeadCode plainOptions (optimized plainOptions ordered)),
        ∃ d, Declaration.value d ∈ m.declarations ∧
          ((d.body.occurrences d.params).filterMap Occurrence.resolved = ["A", "A", "A", "A"] ∧
            container ∉ m.declaredNames ∧ d.binds container = false) ∧
          ∃ before code after,
            m.body plainOptions = before ++ .var (Js.identifier d.name) code :: after ∧
            ∀ u ∈ code.names [⟨[], (Js.statementsSet before).reverse,
                Js.statementsSet (.var (Js.identifier d.name) code :: after)⟩, wrapper],
              u ∈ programNames (Module.emitProgram plainOptions [] (selected plainOptions
                (withoutDeadCode plainOptions (optimized plainOptions ordered)))) ∧
              ReachesContainer u := by
  obtain ⟨modules, ordered, read, checked, m, member, d, value, fits⟩ :=
    has_value (show hasValue plainOptions borrowingUnits (fun m d =>
      (d.body.occurrences d.params).filterMap Occurrence.resolved = ["A", "A", "A", "A"] ∧
        container ∉ m.declaredNames ∧ d.binds container = false) = true by decide +kernel)
  obtain ⟨borrows, own, free⟩ := of_decide_eq_true fits
  exact ⟨modules, ordered, read, checked, m, member, d, value, ⟨borrows, own, free⟩,
    container_reached checked member own value free⟩

theorem shadowed_container_missed :
    ∃ modules ordered, parseUnits shadowingUnits = .ok modules ∧
      Module.check plainOptions modules = .ok ordered ∧
      ∃ m ∈ optimized plainOptions ordered, ∃ d, Declaration.value d ∈ m.declarations ∧
        (∃ use ∈ d.body.occurrences d.params, use.resolved = some "A" ∧ m.name = "B") ∧
        declaration plainOptions ⟨m.name, true⟩ (.value d) =
          .var (Js.identifier d.name) (plainFunction ⟨m.name, true⟩ d) ∧
        ((plainFunction ⟨m.name, true⟩ d).names [wrapper]).map BareName.meaning =
          [(container, [.binder 2])] := by
  obtain ⟨modules, ordered, read, checked, m, member, d, value, missed⟩ :=
    has_value (show hasValue plainOptions shadowingUnits (fun m d =>
      d.isTailRecursive m.name = false ∧
        (∃ use ∈ d.body.occurrences d.params, use.resolved = some "A" ∧ m.name = "B") ∧
        ((plainFunction ⟨m.name, true⟩ d).names [wrapper]).map BareName.meaning =
          [(container, [.binder 2])]) = true by decide +kernel)
  obtain ⟨plain, imported, meaning⟩ := of_decide_eq_true missed
  refine ⟨modules, ordered, read, checked, m, member, d, value, imported, ?_, meaning⟩
  simp [declaration, plain, plainFunction]

end Emit

end PureJs
