import PureJs.Proofs.Js.Binding
import PureJs.Proofs.Js.Run

/-!
The names that code takes from outside, of which a function keeps the variables.
-/

namespace PureJs.Js

mutual

/-- The bare names that an expression takes from outside. -/
def Expr.outer : Expr → List OuterName
  | .integer _ | .number _ | .string _ | .bool _ | .hole => []
  | .array items => listOuter items
  | .name text => [⟨text, false⟩]
  | .property object _ | .entry object _ => object.outer
  | .call callee args => callee.outer ++ listOuter args
  | .paren inner | .negate inner => inner.outer
  | .cond condition yes no => condition.outer ++ yes.outer ++ no.outer
  | .binary _ left right => left.outer ++ right.outer
  | .function params body =>
    ((bodyOuter body).filter (·.text ∉ params ++ bodyVariables body)).map OuterName.inside
  | .object properties => propertiesOuter properties

def listOuter : List Expr → List OuterName
  | [] => []
  | e :: rest => e.outer ++ listOuter rest

def propertiesOuter : List (String × Expr) → List OuterName
  | [] => []
  | (_, e) :: rest => e.outer ++ propertiesOuter rest

/-- The bare names that a statement takes from outside. The variable that it sets is not one of
them: that belongs to the function around the statement. -/
def Statement.outer : Statement → List OuterName
  | .var _ value | .assign _ value | .give value | .run value => value.outer
  | .branch condition yes no => condition.outer ++ bodyOuter yes ++ bodyOuter no
  | .loop _ body => bodyOuter body
  | .again _ | .verbatim _ => []

def bodyOuter : List Statement → List OuterName
  | [] => []
  | s :: rest => s.outer ++ bodyOuter rest

end

def functionOuter (params : List String) (body : List Statement) : List OuterName :=
  (bodyOuter body).filter (·.text ∉ params ++ bodyVariables body)

def Named (xs : List OuterName) (us : List BareName) : Prop := ∀ x ∈ xs, ∃ u ∈ us, u.text = x.text

theorem Named.nil (us : List BareName) : Named [] us := fun _ none => absurd none List.not_mem_nil

theorem Named.append {xs ys : List OuterName} {us vs : List BareName} (left : Named xs us)
    (right : Named ys vs) : Named (xs ++ ys) (us ++ vs) := by
  intro x member
  rcases List.mem_append.mp member with first | second
  · obtain ⟨u, inside, same⟩ := left x first
    exact ⟨u, List.mem_append_left _ inside, same⟩
  · obtain ⟨u, inside, same⟩ := right x second
    exact ⟨u, List.mem_append_right _ inside, same⟩

mutual

theorem Expr.outer_named (scopes : List Scope) (e : Expr) : Named e.outer (e.names scopes) := by
  cases e with
  | integer | number | string | bool | hole => exact Named.nil _
  | array items => exact list_outer_named scopes items
  | name text =>
    intro x member
    rw [List.mem_singleton.mp member]
    exact ⟨_, List.mem_singleton_self _, rfl⟩
  | property object name => exact object.outer_named scopes
  | entry object key => exact object.outer_named scopes
  | call callee args => exact (callee.outer_named scopes).append (list_outer_named scopes args)
  | paren inner => exact inner.outer_named scopes
  | negate operand => exact operand.outer_named scopes
  | cond condition yes no =>
    exact ((condition.outer_named scopes).append (yes.outer_named scopes)).append
      (no.outer_named scopes)
  | binary op left right => exact (left.outer_named scopes).append (right.outer_named scopes)
  | function params body =>
    intro x member
    obtain ⟨y, inside, rfl⟩ := List.mem_map.mp member
    exact body_outer_named scopes params [] [] body y (List.mem_filter.mp inside).1
  | object properties => exact properties_outer_named scopes properties

theorem list_outer_named (scopes : List Scope) (items : List Expr) :
    Named (listOuter items) (listNames scopes items) := by
  match items with
  | [] => exact Named.nil _
  | e :: rest => exact (e.outer_named scopes).append (list_outer_named scopes rest)

theorem properties_outer_named (scopes : List Scope) (properties : List (String × Expr)) :
    Named (propertiesOuter properties) (propertyNames scopes properties) := by
  match properties with
  | [] => exact Named.nil _
  | (_, e) :: rest => exact (e.outer_named scopes).append (properties_outer_named scopes rest)

theorem body_outer_named (scopes : List Scope) (params before after : List String)
    (body : List Statement) :
    Named (bodyOuter body) (bodyNames scopes params before after body) := by
  match body with
  | [] => exact Named.nil _
  | s :: rest =>
    exact (s.outer_named scopes params before _ _).append
      (body_outer_named scopes params _ after rest)

theorem Statement.outer_named (scopes : List Scope) (params before after later : List String)
    (s : Statement) : Named s.outer (s.names scopes params before after later) := by
  cases s with
  | var name value => exact value.outer_named _
  | assign target value => exact (Named.nil (target.names _)).append (value.outer_named _)
  | give value => exact value.outer_named _
  | run value => exact value.outer_named _
  | branch condition yes no =>
    exact ((condition.outer_named _).append
      (body_outer_named scopes params before later yes)).append
      (body_outer_named scopes params before later no)
  | loop label body => exact body_outer_named scopes params before after body
  | again label => exact Named.nil _
  | verbatim text => exact Named.nil _

end

end PureJs.Js
