import PureJs.Proofs.Js.Binding

/-!
Code that binds a name nowhere. However deep the name stands in it, the functions on the way bind
other names only, so that it means what it means outside of the code.
-/

namespace PureJs.Js

mutual

def Expr.binds (x : String) : Expr → Bool
  | .integer _ | .number _ | .string _ | .bool _ | .name _ | .hole => false
  | .array items => listBinds x items
  | .property object _ | .entry object _ => object.binds x
  | .call callee args => callee.binds x || listBinds x args
  | .paren inner | .negate inner => inner.binds x
  | .cond condition yes no => condition.binds x || yes.binds x || no.binds x
  | .binary _ left right => left.binds x || right.binds x
  | .function params body => params.contains x || statementsBind x body
  | .object properties => propertiesBind x properties

def listBinds (x : String) : List Expr → Bool
  | [] => false
  | e :: rest => e.binds x || listBinds x rest

def propertiesBind (x : String) : List (String × Expr) → Bool
  | [] => false
  | (_, e) :: rest => e.binds x || propertiesBind x rest

/-- The statement sets a variable of the name, or a function in it binds the name. -/
def Statement.binds (x : String) : Statement → Bool
  | .var name value => name = x || value.binds x
  | .give value | .run value => value.binds x
  | .assign (.name name) value => name = x || value.binds x
  | .assign target value => target.binds x || value.binds x
  | .branch condition yes no => condition.binds x || statementsBind x yes || statementsBind x no
  | .loop _ body => statementsBind x body
  | .again _ | .verbatim _ => false

def statementsBind (x : String) : List Statement → Bool
  | [] => false
  | s :: rest => s.binds x || statementsBind x rest

end

def Scope.binders (s : Scope) : List String := s.params ++ s.before ++ s.after

/-- The bare name stands inside the given functions, and no function in between binds `x`. -/
def Within (x : String) (scopes : List Scope) (u : BareName) : Prop :=
  ∃ inner, u.scopes = inner ++ scopes ∧ ∀ s ∈ inner, x ∉ s.binders

variable {x : String}

theorem Within.here (text : String) (scopes : List Scope) : Within x scopes ⟨text, scopes⟩ :=
  ⟨[], rfl, by simp⟩

theorem Within.outer {s : Scope} {scopes : List Scope} {u : BareName}
    (within : Within x (s :: scopes) u) (free : x ∉ s.binders) : Within x scopes u := by
  obtain ⟨inner, same, others⟩ := within
  refine ⟨inner ++ [s], by simp [same], ?_⟩
  intro other member
  rcases List.mem_append.mp member with deep | last
  · exact others other deep
  · exact List.mem_singleton.mp last ▸ free

mutual

theorem sets_bound (s : Statement) (free : s.binds x = false) : x ∉ s.sets := by
  cases s with
  | var name value =>
    simp only [Statement.binds, Bool.or_eq_false_iff, decide_eq_false_iff_not] at free
    simpa [Statement.sets] using Ne.symm free.1
  | assign target value =>
    cases target with
    | name text =>
      simp only [Statement.binds, Bool.or_eq_false_iff, decide_eq_false_iff_not] at free
      simpa [Statement.sets] using Ne.symm free.1
    | _ => simp [Statement.sets]
  | branch condition yes no =>
    simp only [Statement.binds, Bool.or_eq_false_iff] at free
    simp only [Statement.sets, List.mem_append, not_or]
    exact ⟨statements_set_bound yes free.1.2, statements_set_bound no free.2⟩
  | loop label body => exact statements_set_bound body free
  | give | run | again | verbatim => simp [Statement.sets]

theorem statements_set_bound (statements : List Statement)
    (free : statementsBind x statements = false) : x ∉ statementsSet statements := by
  cases statements with
  | nil => simp [statementsSet]
  | cons s rest =>
    simp only [statementsBind, Bool.or_eq_false_iff] at free
    simp only [statementsSet, List.mem_append, not_or]
    exact ⟨sets_bound s free.1, statements_set_bound rest free.2⟩

end

mutual

theorem Expr.names_within {e : Expr} (free : e.binds x = false) {scopes : List Scope}
    {u : BareName} (member : u ∈ e.names scopes) : Within x scopes u := by
  cases e with
  | integer | number | string | bool | hole => exact absurd member List.not_mem_nil
  | array items => exact list_names_within free member
  | name text =>
    rw [List.mem_singleton.mp member]
    exact Within.here text scopes
  | property object name | entry object name =>
    have inner : object.binds x = false := free
    exact Expr.names_within inner member
  | call callee args =>
    simp only [Expr.binds, Bool.or_eq_false_iff] at free
    exact (List.mem_append.mp member).elim (Expr.names_within free.1) (list_names_within free.2)
  | paren inner | negate inner =>
    have plain : inner.binds x = false := free
    exact Expr.names_within plain member
  | cond condition yes no =>
    simp only [Expr.binds, Bool.or_eq_false_iff] at free
    rcases List.mem_append.mp member with front | last
    · exact (List.mem_append.mp front).elim (Expr.names_within free.1.1)
        (Expr.names_within free.1.2)
    · exact Expr.names_within free.2 last
  | binary op left right =>
    simp only [Expr.binds, Bool.or_eq_false_iff] at free
    exact (List.mem_append.mp member).elim (Expr.names_within free.1) (Expr.names_within free.2)
  | function params body =>
    simp only [Expr.binds, Bool.or_eq_false_iff] at free
    exact body_names_within free.2 (by simpa using free.1) (by simp) (by simp) member
  | object properties => exact property_names_within free member

theorem list_names_within {items : List Expr} (free : listBinds x items = false)
    {scopes : List Scope} {u : BareName} (member : u ∈ listNames scopes items) :
    Within x scopes u := by
  cases items with
  | nil => exact absurd member List.not_mem_nil
  | cons e rest =>
    simp only [listBinds, Bool.or_eq_false_iff] at free
    exact (List.mem_append.mp member).elim (Expr.names_within free.1) (list_names_within free.2)

theorem property_names_within {properties : List (String × Expr)}
    (free : propertiesBind x properties = false) {scopes : List Scope} {u : BareName}
    (member : u ∈ propertyNames scopes properties) : Within x scopes u := by
  match properties with
  | [] => exact absurd member List.not_mem_nil
  | (_, e) :: rest =>
    simp only [propertiesBind, Bool.or_eq_false_iff] at free
    exact (List.mem_append.mp member).elim (Expr.names_within free.1)
      (property_names_within free.2)

theorem body_names_within {statements : List Statement}
    (free : statementsBind x statements = false) {outer : List Scope}
    {params before after : List String} (parameters : x ∉ params) (earlier : x ∉ before)
    (later : x ∉ after) {u : BareName}
    (member : u ∈ bodyNames outer params before after statements) :
    Within x outer u := by
  cases statements with
  | nil => exact absurd member List.not_mem_nil
  | cons s rest =>
    have sets := statements_set_bound _ free
    simp only [statementsBind, Bool.or_eq_false_iff] at free
    have own := sets_bound s free.1
    have behind := statements_set_bound rest free.2
    rcases List.mem_append.mp member with here | further
    · exact Statement.names_within free.1 parameters earlier (by simp [sets, later])
        (by simp [behind, later]) here
    · exact body_names_within free.2 parameters (by simp [own, earlier]) later further

theorem Statement.names_within {s : Statement} (free : s.binds x = false) {outer : List Scope}
    {params before after later : List String} (parameters : x ∉ params) (earlier : x ∉ before)
    (own : x ∉ after) (behind : x ∉ later) {u : BareName}
    (member : u ∈ s.names outer params before after later) : Within x outer u := by
  have scope : x ∉ (⟨params, before, after⟩ : Scope).binders := by
    simp [Scope.binders, parameters, earlier, own]
  cases s with
  | var name value =>
    simp only [Statement.binds, Bool.or_eq_false_iff] at free
    exact (Expr.names_within free.2 member).outer scope
  | give value | run value =>
    have plain : value.binds x = false := free
    exact (Expr.names_within plain member).outer scope
  | assign target value =>
    have parts : target.binds x = false ∧ value.binds x = false := by
      cases target <;> simp_all [Statement.binds, Expr.binds]
    rcases List.mem_append.mp member with left | right
    · exact (Expr.names_within parts.1 left).outer scope
    · exact (Expr.names_within parts.2 right).outer scope
  | branch condition yes no =>
    simp only [Statement.binds, Bool.or_eq_false_iff] at free
    rcases List.mem_append.mp member with front | last
    · rcases List.mem_append.mp front with first | second
      · exact (Expr.names_within free.1.1 first).outer scope
      · exact body_names_within free.1.2 parameters earlier behind second
    · exact body_names_within free.2 parameters earlier behind last
  | loop label body => exact body_names_within free parameters earlier own member
  | again | verbatim => exact absurd member List.not_mem_nil

end

theorem bindings_between {inner outer : List Scope} (free : ∀ s ∈ inner, x ∉ s.binders)
    (delayed : Bool) :
    bindingsOf x delayed (inner ++ outer) = bindingsOf x (delayed || !inner.isEmpty) outer := by
  induction inner generalizing delayed with
  | nil => simp
  | cons s rest ih =>
    have absent := free s List.mem_cons_self
    have other : x ∉ s.before ++ s.params ++ s.after := by
      simpa [Scope.binders, not_or, and_comm, and_assoc, and_left_comm] using absent
    rw [List.cons_append, bindingsOf, if_neg other,
      ih fun inside member => free inside (List.mem_cons_of_mem _ member)]
    simp

end PureJs.Js
