import PureJs.Js.Basic
import Mathlib.Data.List.Count

/-!
What the bare names in JavaScript code are bound to. The variables of a function belong to the whole
function and are set again and again, so that a name inside a further function, which may run at any
later time, can meet several of their values. Binders of one name are told apart by how many binders
of that name stand around them or in front of them.
-/

namespace PureJs.Js

mutual

def Statement.sets : Statement → List String
  | .var name _ | .assign (.name name) _ => [name]
  | .branch _ yes no => statementsSet yes ++ statementsSet no
  | .loop _ body => statementsSet body
  | .assign _ _ | .give _ | .run _ | .again _ | .verbatim _ => []

def statementsSet : List Statement → List String
  | [] => []
  | s :: rest => s.sets ++ statementsSet rest

end

/-- A function around a name: its parameters, the variables that are set in front of the statement
with the name, latest first, and those that this statement and what follows it set. -/
structure Scope where
  params : List String
  before : List String
  after : List String
  deriving DecidableEq, Repr

/-- A name in code with the functions around it, the innermost one first. -/
structure BareName where
  text : String
  scopes : List Scope
  deriving DecidableEq, Repr

structure OuterName where
  text : String
  delayed : Bool
  deriving DecidableEq, Repr

def OuterName.inside (x : OuterName) : OuterName := { x with delayed := true }

mutual

/-- The bare names of an expression in the order of its text. -/
def Expr.names (scopes : List Scope) : Expr → List BareName
  | .integer _ | .number _ | .string _ | .bool _ | .hole => []
  | .array items => listNames scopes items
  | .name text => [⟨text, scopes⟩]
  | .property object _ | .entry object _ => object.names scopes
  | .call callee args => callee.names scopes ++ listNames scopes args
  | .paren inner | .negate inner => inner.names scopes
  | .cond condition yes no => condition.names scopes ++ yes.names scopes ++ no.names scopes
  | .binary _ left right => left.names scopes ++ right.names scopes
  | .function params body => bodyNames scopes params [] [] body
  | .object properties => propertyNames scopes properties

def listNames (scopes : List Scope) : List Expr → List BareName
  | [] => []
  | e :: rest => e.names scopes ++ listNames scopes rest

def propertyNames (scopes : List Scope) : List (String × Expr) → List BareName
  | [] => []
  | (_, e) :: rest => e.names scopes ++ propertyNames scopes rest

/-- The bare names of statements of a function with the given parameters, when the variables in
`before` are set by now and those in `after` are set when the statements are done. -/
def bodyNames (outer : List Scope) (params before after : List String) :
    List Statement → List BareName
  | [] => []
  | s :: rest =>
    s.names outer params before (statementsSet (s :: rest) ++ after)
        (statementsSet rest ++ after) ++
      bodyNames outer params (s.sets.reverse ++ before) after rest

/-- The bare names of a statement; `later` are the variables set by what follows it. -/
def Statement.names (outer : List Scope) (params before after later : List String) :
    Statement → List BareName
  | .var _ value | .give value | .run value => value.names (⟨params, before, after⟩ :: outer)
  | .assign target value =>
    target.names (⟨params, before, after⟩ :: outer) ++
      value.names (⟨params, before, after⟩ :: outer)
  | .branch condition yes no =>
    condition.names (⟨params, before, after⟩ :: outer) ++
      bodyNames outer params before later yes ++ bodyNames outer params before later no
  | .loop _ body => bodyNames outer params before after body
  | .again _ | .verbatim _ => []

end

mutual

theorem Expr.names_used {e : Expr} {scopes : List Scope} {u : BareName}
    (member : u ∈ e.names scopes) : e.uses u.text = true := by
  cases e with
  | integer | number | string | bool | hole => exact absurd member List.not_mem_nil
  | array items => exact list_names_used member
  | name text =>
    rw [List.mem_singleton.mp member]
    exact decide_eq_true rfl
  | property object name | entry object name =>
    have inside : u ∈ object.names scopes := member
    have used := Expr.names_used inside
    exact used
  | call callee args =>
    rw [Expr.uses, Bool.or_eq_true]
    exact (List.mem_append.mp member).imp Expr.names_used list_names_used
  | paren inner | negate inner =>
    have inside : u ∈ inner.names scopes := member
    have used := Expr.names_used inside
    exact used
  | cond condition yes no =>
    rw [Expr.uses, Bool.or_eq_true, Bool.or_eq_true]
    exact (List.mem_append.mp member).imp
      (fun front => (List.mem_append.mp front).imp Expr.names_used Expr.names_used)
      Expr.names_used
  | binary op left right =>
    rw [Expr.uses, Bool.or_eq_true]
    exact (List.mem_append.mp member).imp Expr.names_used Expr.names_used
  | function params body => exact body_names_used member
  | object properties => exact property_names_used member

theorem list_names_used {items : List Expr} {scopes : List Scope} {u : BareName}
    (member : u ∈ listNames scopes items) : listUses u.text items = true := by
  cases items with
  | nil => exact absurd member List.not_mem_nil
  | cons e rest =>
    rw [listUses, Bool.or_eq_true]
    exact (List.mem_append.mp member).imp Expr.names_used list_names_used

theorem property_names_used {properties : List (String × Expr)} {scopes : List Scope}
    {u : BareName} (member : u ∈ propertyNames scopes properties) :
    propertiesUse u.text properties = true := by
  match properties with
  | [] => exact absurd member List.not_mem_nil
  | (_, e) :: rest =>
    rw [propertiesUse, Bool.or_eq_true]
    exact (List.mem_append.mp member).imp Expr.names_used property_names_used

theorem body_names_used {statements : List Statement} {outer : List Scope}
    {params before after : List String} {u : BareName}
    (member : u ∈ bodyNames outer params before after statements) :
    statementsUse u.text statements = true := by
  cases statements with
  | nil => exact absurd member List.not_mem_nil
  | cons s rest =>
    rw [statementsUse, Bool.or_eq_true]
    exact (List.mem_append.mp member).imp Statement.names_used body_names_used

theorem Statement.names_used {s : Statement} {outer : List Scope}
    {params before after later : List String} {u : BareName}
    (member : u ∈ s.names outer params before after later) : s.uses u.text = true := by
  cases s with
  | var name value | give value | run value =>
    have inside : u ∈ value.names (⟨params, before, after⟩ :: outer) := member
    exact Expr.names_used inside
  | assign target value =>
    rw [Statement.uses, Bool.or_eq_true]
    exact (List.mem_append.mp member).imp Expr.names_used Expr.names_used
  | branch condition yes no =>
    rw [Statement.uses, Bool.or_eq_true, Bool.or_eq_true]
    exact (List.mem_append.mp member).imp
      (fun front => (List.mem_append.mp front).imp Expr.names_used body_names_used)
      body_names_used
  | loop label body => exact body_names_used member
  | again | verbatim => exact absurd member List.not_mem_nil

end

def visible : List Scope → List String
  | [] => []
  | s :: outer => s.before ++ s.params ++ visible outer

inductive Binding
  | outside
  | unset
  | binder (index : Nat)
  deriving DecidableEq, Repr

/-- All that a name can mean. In a function of its own (`delayed`) it can also be looked up after
any of the later statements. -/
def bindingsOf (text : String) : Bool → List Scope → List Binding
  | _, [] => [.outside]
  | delayed, s :: outer =>
    if text ∈ s.before ++ s.params ++ s.after then
      let index := (visible (s :: outer)).count text
      let now := if text ∈ s.before ++ s.params then Binding.binder index else .unset
      if delayed then
        now :: (List.range (s.after.count text)).map fun k => .binder (index + k + 1)
      else [now]
    else bindingsOf text true outer

namespace BareName

def bindings (u : BareName) : List Binding := bindingsOf u.text false u.scopes

def meaning (u : BareName) : String × List Binding := (u.text, u.bindings)

end BareName

def innermost (text : String) (binders : List String) : Binding :=
  if text ∈ binders then .binder (binders.count text) else .outside

def Settled (text : String) : Bool → List Scope → Prop
  | _, [] => True
  | delayed, s :: outer =>
    if text ∈ s.before ++ s.params ++ s.after then
      text ∈ s.before ++ s.params ∧ (delayed = true → text ∉ s.after)
    else Settled text true outer

def BareName.Settled (u : BareName) : Prop := Js.Settled u.text false u.scopes

theorem innermost_outer {text : String} {s : Scope} {outer : List Scope}
    (other : text ∉ s.before ++ s.params ++ s.after) :
    innermost text (visible (s :: outer)) = innermost text (visible outer) := by
  have absent : text ∉ s.before ++ s.params := fun member => other (List.mem_append_left _ member)
  simp only [innermost, visible, List.mem_append, List.count_append,
    List.count_eq_zero_of_not_mem (fun member => absent (List.mem_append_left _ member)),
    List.count_eq_zero_of_not_mem (fun member => absent (List.mem_append_right _ member))]
  simp only [List.mem_append, not_or] at absent
  simp [absent.1, absent.2]

theorem bindings_settled_iff (text : String) (delayed : Bool) (scopes : List Scope) :
    bindingsOf text delayed scopes = [innermost text (visible scopes)] ↔
      Settled text delayed scopes := by
  induction scopes generalizing delayed with
  | nil => simp [bindingsOf, innermost, visible, Settled]
  | cons s outer ih =>
    by_cases here : text ∈ s.before ++ s.params ++ s.after
    · by_cases bound : text ∈ s.before ++ s.params
      · have inside : text ∈ visible (s :: outer) := List.mem_append_left _ bound
        simp only [bindingsOf, Settled, here, bound, innermost, inside, ↓reduceIte, true_and]
        cases delayed with
        | false => simp
        | true =>
          simp only [↓reduceIte, List.cons.injEq, true_and, List.map_eq_nil_iff,
            List.range_eq_nil, List.count_eq_zero, forall_const]
      · have unset : innermost text (visible (s :: outer)) ≠ .unset := by
          unfold innermost
          split <;> simp
        simp only [bindingsOf, Settled, here, bound, ↓reduceIte, false_and, iff_false]
        cases delayed with
        | false => simpa using unset.symm
        | true =>
          intro same
          simp only [↓reduceIte, List.cons.injEq] at same
          exact unset same.1.symm
    · rw [innermost_outer here]
      simp only [bindingsOf, Settled, here, ↓reduceIte]
      exact ih true

theorem meaning_settled_iff (u : BareName) :
    u.meaning = (u.text, [innermost u.text (visible u.scopes)]) ↔ u.Settled := by
  rw [BareName.meaning, Prod.mk.injEq, BareName.bindings, BareName.Settled]
  simp only [true_and]
  exact bindings_settled_iff u.text false u.scopes

end PureJs.Js
