import PureJs.Proofs.Emit.Names
import PureJs.Proofs.Program.Formed
import Mathlib.Data.List.ReduceOption

/-!
The functions around a name in plain code, where do blocks are chains of calls. Every binder of the
source has become a function of one parameter, and the functions around a name are those of the
binders around it in the source, with functions for unused results in between.
-/

namespace PureJs

inductive Binder
  | parameter (function : Position) (index : Nat) (name : String)
  | statement (place : Position) (name : String)
  deriving DecidableEq, Repr

namespace Binder

def name : Binder → String
  | parameter _ _ name | statement _ name => name

def parameters (function : Position) (params : List String) : List Binder :=
  (params.zipIdx.map fun param => parameter function param.2 param.1).reverse

theorem parameters_names (function : Position) (params : List String) :
    (parameters function params).map name = params.reverse := by
  rw [parameters, List.map_reverse, List.map_map]
  exact congrArg List.reverse (List.zipIdx_map_fst 0 params)

end Binder

/-- A bare name that plain code needs, with the binders around it, the innermost one first. -/
structure Use where
  occurrence : Option Occurrence
  scope : List Binder

def Use.text (module : String) (use : Use) : String :=
  use.occurrence.elim Emit.bindName (Occurrence.bareName module)

namespace Expr

mutual

/-- The bare names that the plain code of an expression needs, in the order of that code. -/
def plainUses (locals : List String) (scope : List Binder) : Expr → List Use
  | literal _ _ => []
  | array _ items => listPlainUses locals scope items
  | var place name qualifier resolved =>
    [⟨some ⟨place, name, qualifier, resolved, locals⟩, scope⟩]
  | app _ function argument =>
    plainUses locals scope function ++ plainUses locals scope argument
  | lambda place params body =>
    plainUses (params ++ locals) (Binder.parameters place params ++ scope) body
  | cond _ condition yes no =>
    plainUses locals scope condition ++ plainUses locals scope yes ++ plainUses locals scope no
  | binary _ _ left right => plainUses locals scope left ++ plainUses locals scope right
  | negate _ operand => plainUses locals scope operand
  | block _ statements => statementPlainUses locals scope statements

def listPlainUses (locals : List String) (scope : List Binder) : List Expr → List Use
  | [] => []
  | e :: rest => plainUses locals scope e ++ listPlainUses locals scope rest

def statementPlainUses (locals : List String) (scope : List Binder) : List Statement → List Use
  | [] => []
  | [.bind _ _ e] | [.define _ _ e] | [.run _ e] => plainUses locals scope e
  | .define place name e :: rest =>
    statementPlainUses (name :: locals) (.statement place name :: scope) rest ++
      plainUses locals scope e
  | .bind place name e :: rest =>
    ⟨none, scope⟩ :: plainUses locals scope e ++
      statementPlainUses (name :: locals) (.statement place name :: scope) rest
  | .run _ e :: rest =>
    ⟨none, scope⟩ :: plainUses locals scope e ++ statementPlainUses locals scope rest

end

mutual

theorem plain_uses_occurrences (e : Expr) (locals : List String) (scope : List Binder) :
    ((e.plainUses locals scope).filterMap Use.occurrence).Perm (e.occurrences locals) := by
  cases e with
  | literal place value => exact .nil
  | array place items => exact list_plain_uses_occurrences items locals scope
  | var place name qualifier resolved => exact .refl _
  | app place function argument =>
    simp only [plainUses, List.filterMap_append]
    exact (plain_uses_occurrences function locals scope).append
      (plain_uses_occurrences argument locals scope)
  | lambda place params body => exact plain_uses_occurrences body _ _
  | cond place condition yes no =>
    simp only [plainUses, List.filterMap_append]
    exact ((plain_uses_occurrences condition locals scope).append
      (plain_uses_occurrences yes locals scope)).append (plain_uses_occurrences no locals scope)
  | binary place op left right =>
    simp only [plainUses, List.filterMap_append]
    exact (plain_uses_occurrences left locals scope).append
      (plain_uses_occurrences right locals scope)
  | negate place operand => exact plain_uses_occurrences operand locals scope
  | block place statements => exact statement_plain_uses_occurrences statements locals scope

theorem list_plain_uses_occurrences (items : List Expr) (locals : List String)
    (scope : List Binder) :
    ((listPlainUses locals scope items).filterMap Use.occurrence).Perm
      (listOccurrences locals items) := by
  cases items with
  | nil => exact .nil
  | cons e rest =>
    simp only [listPlainUses, List.filterMap_append]
    exact (plain_uses_occurrences e locals scope).append
      (list_plain_uses_occurrences rest locals scope)

theorem statement_plain_uses_occurrences (statements : List Statement) (locals : List String)
    (scope : List Binder) :
    ((statementPlainUses locals scope statements).filterMap Use.occurrence).Perm
      (statementOccurrences locals statements) := by
  match statements with
  | [] => exact .nil
  | [.bind _ _ e] | [.define _ _ e] | [.run _ e] =>
    simp only [statementPlainUses, statementOccurrences, List.append_nil]
    exact plain_uses_occurrences e locals scope
  | .define place name e :: second :: rest =>
    simp only [statementPlainUses, List.filterMap_append]
    exact List.perm_append_comm.trans ((plain_uses_occurrences e locals scope).append
      (statement_plain_uses_occurrences (second :: rest) _ _))
  | .bind place name e :: second :: rest =>
    simp only [statementPlainUses, List.cons_append, List.filterMap_cons_none,
      List.filterMap_append]
    exact (plain_uses_occurrences e locals scope).append
      (statement_plain_uses_occurrences (second :: rest) _ _)
  | .run place e :: second :: rest =>
    simp only [statementPlainUses, List.cons_append, List.filterMap_cons_none,
      List.filterMap_append]
    exact (plain_uses_occurrences e locals scope).append
      (statement_plain_uses_occurrences (second :: rest) _ _)

end

end Expr

def ValueDeclaration.plainUses (d : ValueDeclaration) : List Use :=
  d.body.plainUses d.params (Binder.parameters d.place d.params)

namespace Emit

open Js (Scope BareName)

/-- The parameter of the function that a binder has become; without a binder the function is one for
a result that nothing uses. -/
def binderParam : Option Binder → String
  | some b => Js.identifier b.name
  | none => unusedName

def functionScopes (around : List (Option Binder)) : List Scope :=
  around.map fun f => parameterScope (binderParam f)

theorem parameter_scopes_binders (place : Position) (params : List String) :
    parameterScopes params = functionScopes ((Binder.parameters place params).map some) := by
  have names := Binder.parameters_names place params
  rw [parameterScopes, ← List.map_reverse, ← names]
  simp [functionScopes, binderParam]

structure Known (locals : List String) (scope : List Binder) : Prop where
  names : ∀ x, x ∈ locals ↔ x ∈ scope.map Binder.name
  lexical : ∀ b ∈ scope, Lexical b.name

theorem Known.statement {locals : List String} {scope : List Binder} (known : Known locals scope)
    {name : String} (lexical : Lexical name) (place : Position) :
    Known (name :: locals) (.statement place name :: scope) := by
  refine ⟨?_, List.forall_mem_cons.mpr ⟨lexical, known.lexical⟩⟩
  intro x
  simp only [List.mem_cons, List.map_cons, Binder.name, known.names x]

theorem Known.parameters {locals : List String} {scope : List Binder} (known : Known locals scope)
    {params : List String} (lexical : ∀ param ∈ params, Lexical param) (place : Position) :
    Known (params ++ locals) (Binder.parameters place params ++ scope) := by
  have names : ∀ x, x ∈ params ↔ x ∈ (Binder.parameters place params).map Binder.name := by
    intro x
    rw [Binder.parameters_names, List.mem_reverse]
  refine ⟨?_, List.forall_mem_append.mpr ⟨?_, known.lexical⟩⟩
  · intro x
    rw [List.map_append, List.mem_append, List.mem_append, names x, known.names x]
  · intro b member
    exact lexical b.name ((names b.name).mpr (List.mem_map_of_mem member))

/-- The functions around a bare name, up to the ones outside, are those of the binders around its
use. -/
structure Placed (module : String) (outer : List Scope) (u : BareName) (use : Use)
    (around : List (Option Binder)) : Prop where
  text : u.text = use.text module
  scopes : u.scopes = functionScopes around ++ outer
  binders : around.reduceOption = use.scope
  lexical : ∀ b ∈ use.scope, Lexical b.name
  locals : ∀ o, use.occurrence = some o → Known o.locals use.scope

section Placing

variable {module : String} {outer : List Scope}

def AllPlaced (module : String) (outer : List Scope) (us : List BareName) (uses : List Use) :
    Prop :=
  List.Forall₂ (fun u use => ∃ around, Placed module outer u use around) us uses

theorem chain_placed {around : List (Option Binder)} {locals : List String}
    (known : Known locals around.reduceOption) :
    ∃ inside, Placed module outer ⟨bindName, functionScopes around ++ outer⟩
      ⟨none, around.reduceOption⟩ inside :=
  ⟨around, rfl, rfl, rfl, known.lexical, nofun⟩

theorem reduce_some (binders : List Binder) : (binders.map some).reduceOption = binders := by
  simp [List.reduceOption]

mutual

theorem expr_placed {e : Expr} (formed : e.Formed) {locals : List String}
    {around : List (Option Binder)} (known : Known locals around.reduceOption) :
    AllPlaced module outer ((expr ⟨module, false⟩ e).names (functionScopes around ++ outer))
      (e.plainUses locals around.reduceOption) := by
  cases e with
  | literal place value =>
    rw [expr, names_literal]
    exact .nil
  | array place items => exact list_placed formed known
  | var place name qualifier resolved =>
    rw [expr, names_var]
    refine .cons ⟨around, rfl, rfl, rfl, known.lexical, ?_⟩ .nil
    rintro o ⟨⟩
    exact known
  | app place function argument =>
    simp only [expr, Js.Expr.names, Js.listNames, names_callee, List.append_nil]
    exact List.rel_append (expr_placed formed.1 known) (expr_placed formed.2 known)
  | lambda place params body =>
    have inner : Known (params ++ locals)
        ((Binder.parameters place params).map some ++ around).reduceOption := by
      rw [List.reduceOption_append, reduce_some]
      exact known.parameters formed.2.1 place
    have placed := expr_placed formed.2.2 inner
    rw [List.reduceOption_append, reduce_some, functionScopes, List.map_append,
      List.append_assoc] at placed
    rw [expr, names_curried, parameter_scopes_binders place]
    exact placed
  | cond place condition yes no =>
    simp only [expr, Js.Expr.names, names_operand]
    exact List.rel_append (List.rel_append (expr_placed formed.1 known)
      (expr_placed formed.2.1 known)) (expr_placed formed.2.2 known)
  | binary place op left right =>
    simp only [expr, Js.Expr.names, names_operand]
    exact List.rel_append (expr_placed formed.1 known) (expr_placed formed.2 known)
  | negate place operand =>
    have inner : operand.Formed := formed
    simp only [expr, Js.Expr.names, names_operand]
    exact expr_placed inner known
  | block place statements => exact chained_placed formed.1 known

theorem list_placed {items : List Expr} (formed : Expr.ListFormed items) {locals : List String}
    {around : List (Option Binder)} (known : Known locals around.reduceOption) :
    AllPlaced module outer
      (Js.listNames (functionScopes around ++ outer) (list ⟨module, false⟩ items))
      (Expr.listPlainUses locals around.reduceOption items) := by
  cases items with
  | nil => exact .nil
  | cons e rest => exact List.rel_append (expr_placed formed.1 known) (list_placed formed.2 known)

theorem chained_placed {statements : List Statement} (formed : Expr.StatementsFormed statements)
    {locals : List String} {around : List (Option Binder)}
    (known : Known locals around.reduceOption) :
    AllPlaced module outer
      ((chained ⟨module, false⟩ statements).names (functionScopes around ++ outer))
      (Expr.statementPlainUses locals around.reduceOption statements) := by
  match statements, formed with
  | [], _ => exact .nil
  | [.bind _ _ e], formed | [.define _ _ e], formed => exact expr_placed formed.2.1 known
  | [.run _ e], formed => exact expr_placed formed.1 known
  | .define place name e :: second :: rest, formed =>
    have inner : Known (name :: locals)
        (some (Binder.statement place name) :: around).reduceOption :=
      known.statement formed.1 place
    simp only [chained, Js.Expr.names, Js.listNames, names_giving, List.append_nil]
    exact List.rel_append (chained_placed formed.2.2 inner) (expr_placed formed.2.1 known)
  | .bind place name e :: second :: rest, formed =>
    have inner : Known (name :: locals)
        (some (Binder.statement place name) :: around).reduceOption :=
      known.statement formed.1 place
    simp only [chained, Js.Expr.names, Js.listNames, names_giving, List.append_nil]
    exact List.rel_append (.cons (chain_placed known) (expr_placed formed.2.1 known))
      (chained_placed formed.2.2 inner)
  | .run place e :: second :: rest, formed =>
    have inner : Known locals (none :: around).reduceOption := known
    simp only [chained, Js.Expr.names, Js.listNames, names_giving, List.append_nil]
    exact List.rel_append (.cons (chain_placed known) (expr_placed formed.1 known))
      (chained_placed formed.2 inner)

end

theorem curried_placed {d : ValueDeclaration} (formed : d.Formed) (module : String)
    (outer : List Scope) :
    AllPlaced module outer ((curried d.params (expr ⟨module, false⟩ d.body)).names outer)
      d.plainUses := by
  have nothing : Known [] [] := ⟨fun _ => Iff.rfl, fun _ none => absurd none List.not_mem_nil⟩
  have known : Known d.params ((Binder.parameters d.place d.params).map some).reduceOption := by
    rw [reduce_some]
    simpa using nothing.parameters formed.params d.place
  have placed : AllPlaced module outer _ _ := expr_placed formed.body known
  rw [reduce_some] at placed
  rw [names_curried, parameter_scopes_binders d.place]
  exact placed

end Placing

def binding? (text : String) (around : List (Option Binder)) : Option (Option Binder) :=
  around.find? fun f => binderParam f = text

theorem binding_identifier {name : String} (lexical : Lexical name) {around : List (Option Binder)}
    (others : ∀ b ∈ around.reduceOption, Lexical b.name) :
    binding? (Js.identifier name) around =
      (around.reduceOption.find? (·.name = name)).map some := by
  induction around with
  | nil => rfl
  | cons f rest ih =>
    cases f with
    | none =>
      have other : binderParam none ≠ Js.identifier name :=
        (bare_name_plain lexical "" none).2.symm
      rw [binding?, List.find?_cons_of_neg (by simpa using other)]
      exact ih others
    | some b =>
      obtain ⟨first, behind⟩ := List.forall_mem_cons.mp others
      rw [List.reduceOption_cons_of_some]
      by_cases same : b.name = name
      · rw [binding?, List.find?_cons_of_pos (by simp [binderParam, same]),
          List.find?_cons_of_pos (by simpa using same)]
        rfl
      · have other : binderParam (some b) ≠ Js.identifier name :=
          fun equal => same (Js.identifier_injective first lexical equal)
        rw [binding?, List.find?_cons_of_neg (by simpa using other),
          List.find?_cons_of_neg (by simpa using same)]
        exact ih behind

namespace Placed

variable {module : String} {outer : List Scope} {u : BareName} {use : Use}
  {around : List (Option Binder)} {o : Occurrence}

theorem spelled (placed : Placed module outer u use around) (same : use.occurrence = some o) :
    u.text = o.bareName module := by
  rw [placed.text, Use.text, same]
  rfl

theorem binding (placed : Placed module outer u use around) {name : String}
    (lexical : Lexical name) :
    binding? (Js.identifier name) around = (use.scope.find? (·.name = name)).map some := by
  rw [← placed.binders]
  exact binding_identifier lexical (placed.binders ▸ placed.lexical)

theorem binding_chain (placed : Placed module outer u use around) :
    binding? bindName around = none := by
  rw [binding?, List.find?_eq_none]
  intro f member
  cases f with
  | none => decide
  | some b =>
    have inside : b ∈ use.scope := placed.binders ▸ List.reduceOption_mem_iff.mpr member
    simp only [decide_eq_true_eq]
    exact (bare_name_plain (placed.lexical b inside) "" none).1

theorem find_binder_iff (placed : Placed module outer u use around)
    (same : use.occurrence = some o) :
    (∃ b, use.scope.find? (·.name = o.name) = some b) ↔ o.name ∈ o.locals := by
  rw [(placed.locals o same).names, ← Option.isSome_iff_exists, List.find?_isSome, List.mem_map]
  simp

end Placed

end Emit

end PureJs
