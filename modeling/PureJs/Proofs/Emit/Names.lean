import PureJs.Emit
import PureJs.Proofs.Js.Binding
import PureJs.Proofs.Js.Identifier
import PureJs.Proofs.Syntax.Formed
import Mathlib.Data.List.Forall2

/-!
The bare names in the code of an expression. They are those of the names that the expression uses,
one for one, and the binders around each are those of the source. Code with direct blocks keeps
their order; chained blocks put what comes after a value in front of it and add names of their own.
-/

namespace PureJs

def Emit.bareName (module name : String) (resolved : Option String) : String :=
  match resolved with
  | none => Js.identifier name
  | some target => if target = module then Js.identifier name else Js.container

def Occurrence.bareName (module : String) (use : Occurrence) : String :=
  Emit.bareName module use.name use.resolved

/-- The bare name of a use with what it means in the source: the innermost binder in scope. -/
def Occurrence.meaning (module : String) (use : Occurrence) : String × List Js.Binding :=
  (use.bareName module,
    [Js.innermost (use.bareName module) (use.locals.map Js.identifier)])

namespace Emit

open Js (Scope BareName visible)

section Pieces

variable (scopes : List Scope)

@[simp] theorem names_var (setting : Setting) (name : String) (resolved : Option String) :
    (var setting name resolved).names scopes =
      [⟨bareName setting.module name resolved, scopes⟩] := by
  unfold var bareName
  cases resolved with
  | none => rfl
  | some target =>
    dsimp only
    split
    · rfl
    · unfold Js.select
      split <;> rfl

@[simp] theorem names_literal (value : Literal) : (literal value).names scopes = [] := by
  cases value <;> rfl

@[simp] theorem names_operand (e : Expr) (code : Js.Expr) :
    (asOperand e code).names scopes = code.names scopes := by
  unfold asOperand
  split <;> rfl

@[simp] theorem names_callee (e : Expr) (code : Js.Expr) :
    (asCallee e code).names scopes = code.names scopes := by
  unfold asCallee
  split <;> rfl

@[simp] theorem names_perform (e : Expr) (code : Js.Expr) :
    (perform e code).names scopes = code.names scopes := by
  simp [perform, Js.Expr.names, Js.listNames]

def parameterScope (param : String) : Scope := ⟨[param], [], []⟩

@[simp] theorem names_giving (param : String) (code : Js.Expr) :
    (giving param code).names scopes = code.names (parameterScope param :: scopes) := by
  simp [giving, Js.Expr.names, Js.bodyNames, Js.Statement.names, Js.statementsSet,
    Js.Statement.sets, parameterScope]

def parameterScopes (params : List String) : List Scope :=
  (params.map fun param => parameterScope (Js.identifier param)).reverse

theorem parameter_scopes_cons (param : String) (rest : List String) :
    parameterScopes (param :: rest) ++ scopes =
      parameterScopes rest ++ parameterScope (Js.identifier param) :: scopes := by
  simp [parameterScopes]

theorem names_curried (params : List String) (code : Js.Expr) :
    (curried params code).names scopes = code.names (parameterScopes params ++ scopes) := by
  induction params generalizing scopes with
  | nil => rfl
  | cons param rest ih =>
    rw [parameter_scopes_cons, ← ih]
    exact names_giving scopes (Js.identifier param) _

end Pieces

def SameBinders (binders locals : List String) : Prop :=
  ∀ text, text ≠ unusedName → binders.count text = (locals.map Js.identifier).count text

theorem SameBinders.bind {binders locals : List String} (same : SameBinders binders locals)
    (name : String) : SameBinders (Js.identifier name :: binders) (name :: locals) := by
  intro text used
  rw [List.map_cons, List.count_cons, List.count_cons, same text used]

theorem SameBinders.unused {binders locals : List String} (same : SameBinders binders locals) :
    SameBinders (unusedName :: binders) locals := by
  intro text used
  rw [List.count_cons_of_ne (Ne.symm used), same text used]

theorem SameBinders.parameters {scopes : List Scope} {locals : List String}
    (same : SameBinders (visible scopes) locals) (params : List String) :
    SameBinders (visible (parameterScopes params ++ scopes)) (params ++ locals) := by
  induction params generalizing scopes locals with
  | nil => exact same
  | cons param rest ih =>
    rw [parameter_scopes_cons]
    have inner : SameBinders (visible (parameterScope (Js.identifier param) :: scopes))
        (param :: locals) := same.bind param
    intro text used
    rw [ih inner text used]
    simp only [List.map_append, List.map_cons, List.count_append, List.count_cons, List.cons_append]
    omega

theorem SameBinders.innermost {binders locals : List String} (same : SameBinders binders locals)
    {text : String} (used : text ≠ unusedName) :
    Js.innermost text binders = Js.innermost text (locals.map Js.identifier) := by
  have count := same text used
  have member : text ∈ binders ↔ text ∈ locals.map Js.identifier := by
    rw [← List.count_pos_iff, ← List.count_pos_iff, count]
  simp only [Js.innermost, member, count]

/-- Where an expression stands: its code has the binders of the local names around it, and no
variables are set later on in any function around code with chained blocks. -/
structure Stands (blocks : Bool) (scopes : List Scope) (locals : List String) : Prop where
  binders : SameBinders (visible scopes) locals
  chained : blocks = false → ∀ s ∈ scopes, s.after = []

theorem Stands.parameters {blocks : Bool} {scopes : List Scope} {locals : List String}
    (stands : Stands blocks scopes locals) (params : List String) :
    Stands blocks (parameterScopes params ++ scopes) (params ++ locals) := by
  refine ⟨stands.binders.parameters params, ?_⟩
  intro chained s member
  rcases List.mem_append.mp member with own | outer
  · obtain ⟨param, _, rfl⟩ := List.mem_map.mp (List.mem_reverse.mp own)
    rfl
  · exact stands.chained chained s outer

theorem Stands.bind {blocks : Bool} {scopes : List Scope} {locals : List String}
    (stands : Stands blocks scopes locals) (name : String) :
    Stands blocks (parameterScope (Js.identifier name) :: scopes) (name :: locals) :=
  stands.parameters [name]

theorem Stands.unused {blocks : Bool} {scopes : List Scope} {locals : List String}
    (stands : Stands blocks scopes locals) :
    Stands blocks (parameterScope unusedName :: scopes) locals := by
  refine ⟨stands.binders.unused, ?_⟩
  intro chained s member
  rcases List.mem_cons.mp member with same | outer
  · subst same
    rfl
  · exact stands.chained chained s outer

structure Aligned (blocks : Bool) (module : String) (u : BareName) (use : Occurrence) : Prop where
  text : u.text = use.bareName module
  plain : u.text ≠ bindName ∧ u.text ≠ unusedName
  stands : Stands blocks u.scopes use.locals

theorem identifier_plain {name : String} (lexical : Lexical name) :
    Js.identifier name ≠ bindName ∧ Js.identifier name ≠ unusedName :=
  ⟨Js.identifier_ne_generated lexical
      (show bindName.toList = '$' :: 'b' :: ['i', 'n', 'd'] from rfl) (by decide),
    Js.identifier_ne_generated lexical
      (show unusedName.toList = '$' :: 'u' :: ['n', 'u', 's', 'e', 'd'] from rfl) (by decide)⟩

theorem bare_name_plain {name : String} (lexical : Lexical name) (module : String)
    (resolved : Option String) :
    bareName module name resolved ≠ bindName ∧ bareName module name resolved ≠ unusedName := by
  have own := identifier_plain lexical
  unfold bareName
  cases resolved with
  | none => exact own
  | some target =>
    dsimp only
    split
    · exact own
    · exact ⟨by decide, by decide⟩

/-- The bare names that are no call of the chaining function stand for the uses one for one, in the
order of the source unless blocks are chained. -/
def Matches (blocks : Bool) (module : String) (us : List BareName) (uses : List Occurrence) :
    Prop :=
  ∃ vs, (us.filter (·.text ≠ bindName)).Perm vs ∧
    List.Forall₂ (Aligned blocks module) vs uses ∧ (blocks = true → us = vs)

section Matching

variable {blocks : Bool} {module : String} {us vs : List BareName} {uses others : List Occurrence}

theorem Matches.nil : Matches blocks module [] [] := ⟨[], List.Perm.nil, .nil, fun _ => rfl⟩

theorem Matches.append (left : Matches blocks module us uses)
    (right : Matches blocks module vs others) :
    Matches blocks module (us ++ vs) (uses ++ others) := by
  obtain ⟨front, perm, aligned, ordered⟩ := left
  obtain ⟨back, perms, aligneds, ordereds⟩ := right
  refine ⟨front ++ back, ?_, List.rel_append aligned aligneds, ?_⟩
  · rw [List.filter_append]
    exact perm.append perms
  · intro direct
    rw [ordered direct, ordereds direct]

theorem Matches.swap (left : Matches false module us uses)
    (right : Matches false module vs others) :
    Matches false module (vs ++ us) (uses ++ others) := by
  obtain ⟨all, perm, aligned, _⟩ := left.append right
  refine ⟨all, ?_, aligned, nofun⟩
  refine List.Perm.trans ?_ perm
  rw [List.filter_append, List.filter_append]
  exact List.perm_append_comm

theorem Matches.chain (found : Matches false module us uses) (scopes : List Scope) :
    Matches false module (⟨bindName, scopes⟩ :: us) uses := by
  obtain ⟨all, perm, aligned, _⟩ := found
  refine ⟨all, ?_, aligned, nofun⟩
  simpa using perm

theorem Matches.single {scopes : List Scope} {place : Position} {name : String}
    {qualifier resolved : Option String} {locals : List String} (lexical : Lexical name)
    (stands : Stands blocks scopes locals) :
    Matches blocks module [⟨bareName module name resolved, scopes⟩]
      [⟨place, name, qualifier, resolved, locals⟩] := by
  have plain := bare_name_plain lexical module resolved
  refine ⟨_, List.Perm.refl _, ?_, ?_⟩
  · simp only [ne_eq, plain.1, not_false_eq_true, decide_true, List.filter_cons_of_pos,
      List.filter_nil]
    exact .cons ⟨rfl, plain, stands⟩ .nil
  · simp [plain.1]

end Matching

mutual

theorem expr_matches {blocks : Bool} {module : String} {e : Expr} (formed : e.Formed)
    {scopes : List Scope} {locals : List String} (stands : Stands blocks scopes locals) :
    Matches blocks module ((expr ⟨module, blocks⟩ e).names scopes) (e.occurrences locals) := by
  cases e with
  | literal place value =>
    rw [expr, names_literal]
    exact Matches.nil
  | array place items => exact list_matches formed stands
  | var place name qualifier resolved =>
    rw [expr, names_var]
    exact Matches.single formed stands
  | app place function argument =>
    simp only [expr, Js.Expr.names, Js.listNames, names_callee, List.append_nil]
    exact (expr_matches formed.1 stands).append (expr_matches formed.2 stands)
  | lambda place params body =>
    rw [expr, names_curried]
    exact expr_matches formed.2.2 (stands.parameters params)
  | cond place condition yes no =>
    simp only [expr, Js.Expr.names, names_operand]
    exact ((expr_matches formed.1 stands).append (expr_matches formed.2.1 stands)).append
      (expr_matches formed.2.2 stands)
  | binary place op left right =>
    simp only [expr, Js.Expr.names, names_operand]
    exact (expr_matches formed.1 stands).append (expr_matches formed.2 stands)
  | negate place operand =>
    have inner : operand.Formed := formed
    simp only [expr, Js.Expr.names, names_operand]
    exact expr_matches inner stands
  | block place statements =>
    cases blocks with
    | false => exact chained_matches formed.1 stands
    | true =>
      have same : SameBinders ([] ++ visible scopes) locals := stands.binders
      exact direct_matches formed.1 same

theorem list_matches {blocks : Bool} {module : String} {items : List Expr}
    (formed : Expr.ListFormed items) {scopes : List Scope} {locals : List String}
    (stands : Stands blocks scopes locals) :
    Matches blocks module (Js.listNames scopes (list ⟨module, blocks⟩ items))
      (Expr.listOccurrences locals items) := by
  cases items with
  | nil => exact Matches.nil
  | cons e rest => exact (expr_matches formed.1 stands).append (list_matches formed.2 stands)

theorem direct_matches {module : String} {statements : List Statement}
    (formed : Expr.StatementsFormed statements) {outer : List Scope} {before locals : List String}
    (same : SameBinders (before ++ visible outer) locals) :
    Matches true module (Js.bodyNames outer [] before [] (direct ⟨module, true⟩ statements))
      (Expr.statementOccurrences locals statements) := by
  have stands : ∀ after, Stands true (⟨[], before, after⟩ :: outer) locals := by
    intro after
    exact ⟨by simpa [visible] using same, nofun⟩
  match statements, formed with
  | [], _ => exact Matches.nil
  | [.bind _ _ e], formed | [.define _ _ e], formed =>
    simp only [direct, Js.bodyNames, Js.Statement.names, names_perform, Expr.statementOccurrences]
    exact (expr_matches formed.2.1 (stands _)).append Matches.nil
  | [.run _ e], formed =>
    simp only [direct, Js.bodyNames, Js.Statement.names, names_perform, Expr.statementOccurrences]
    exact (expr_matches formed.1 (stands _)).append Matches.nil
  | .bind _ name e :: second :: rest, formed | .define _ name e :: second :: rest, formed =>
    simp only [direct, Js.bodyNames, Js.Statement.names, names_perform]
    exact (expr_matches formed.2.1 (stands _)).append
      (direct_matches formed.2.2 (same.bind name))
  | .run _ e :: second :: rest, formed =>
    simp only [direct, Js.bodyNames, Js.Statement.names, names_perform]
    exact (expr_matches formed.1 (stands _)).append (direct_matches formed.2 same)

theorem chained_matches {module : String} {statements : List Statement}
    (formed : Expr.StatementsFormed statements) {scopes : List Scope} {locals : List String}
    (stands : Stands false scopes locals) :
    Matches false module ((chained ⟨module, false⟩ statements).names scopes)
      (Expr.statementOccurrences locals statements) := by
  match statements, formed with
  | [], _ => exact Matches.nil
  | [.bind _ _ e], formed | [.define _ _ e], formed =>
    simp only [chained, Expr.statementOccurrences, List.append_nil]
    exact expr_matches formed.2.1 stands
  | [.run _ e], formed =>
    simp only [chained, Expr.statementOccurrences, List.append_nil]
    exact expr_matches formed.1 stands
  | .define _ name e :: second :: rest, formed =>
    simp only [chained, Js.Expr.names, Js.listNames, names_giving, List.append_nil]
    exact (expr_matches formed.2.1 stands).swap
      (chained_matches formed.2.2 (stands.bind name))
  | .bind _ name e :: second :: rest, formed =>
    simp only [chained, Js.Expr.names, Js.listNames, names_giving, List.append_nil]
    exact ((expr_matches formed.2.1 stands).chain scopes).append
      (chained_matches formed.2.2 (stands.bind name))
  | .run _ e :: second :: rest, formed =>
    simp only [chained, Js.Expr.names, Js.listNames, names_giving, List.append_nil]
    exact ((expr_matches formed.1 stands).chain scopes).append
      (chained_matches formed.2 stands.unused)

end

end Emit

end PureJs
