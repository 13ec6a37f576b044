import PureJs.Proofs.Emit.BlockForms
import PureJs.Proofs.Js.Outer
import PureJs.Proofs.Program.TailCalls

/-!
Calls of a declaration by itself, and what the loop made of them depends on. The loop has one
variable for each parameter, and a function in the code keeps the variable and not its value; so no
function that is handed on to the next round must keep a variable that changes from round to round.
-/

namespace PureJs

def Expr.isLocal (name : String) : Expr → Bool
  | .var _ written _ none => written = name
  | _ => false

namespace Expr

theorem unapply_formed {e : Expr} (formed : e.Formed) : ∀ arg ∈ e.unapply.2, arg.Formed := by
  match e with
  | .app place function argument =>
    rw [unapply_app]
    refine List.forall_mem_append.mpr ⟨unapply_formed formed.1, ?_⟩
    exact List.forall_mem_singleton.mpr formed.2
  | .literal .. | .array .. | .var .. | .lambda .. | .cond .. | .binary .. | .negate ..
  | .block .. => exact fun arg none => absurd none List.not_mem_nil

end Expr

namespace ValueDeclaration

def selfCalls (module : String) (d : ValueDeclaration) : Expr → List (List Expr)
  | .cond _ _ yes no => selfCalls module d yes ++ selfCalls module d no
  | e => (d.selfCall? module e).toList

def selfArguments (module : String) (d : ValueDeclaration) : List Expr :=
  (d.selfCalls module d.body).flatten

def Keeps (module : String) (d : ValueDeclaration) (param : String) : Prop :=
  ∀ args ∈ d.selfCalls module d.body, ∀ arg ∈ d.params.zip args, arg.1 = param →
    arg.2.isLocal param = true

instance (module : String) (d : ValueDeclaration) (param : String) :
    Decidable (d.Keeps module param) :=
  inferInstanceAs (Decidable (∀ args ∈ d.selfCalls module d.body, ∀ arg ∈ d.params.zip args,
    arg.1 = param → arg.2.isLocal param = true))

end ValueDeclaration

namespace Emit

/-- The loop can do the work of the function: the declaration has another name than its parameters,
and no function in an argument of a self call keeps a parameter that such a call changes. -/
structure LoopSafe (setting : Setting) (d : ValueDeclaration) : Prop where
  name : d.name ∉ d.params
  keeps : ∀ arg ∈ d.selfArguments setting.module, ∀ x ∈ (expr setting arg).outer,
    x.delayed = true → ∀ param ∈ d.params, x.text = Js.identifier param →
      d.Keeps setting.module param

theorem loop_safe_iff {setting : Setting} {d : ValueDeclaration} :
    (d.name ∉ d.params ∧ ∀ arg ∈ d.selfArguments setting.module, ∀ x ∈ (expr setting arg).outer,
      x.delayed = true → ∀ param ∈ d.params, x.text = Js.identifier param →
        d.Keeps setting.module param) ↔ LoopSafe setting d :=
  ⟨fun both => ⟨both.1, both.2⟩, fun safe => ⟨safe.name, safe.keeps⟩⟩

instance (setting : Setting) (d : ValueDeclaration) : Decidable (LoopSafe setting d) :=
  decidable_of_iff _ loop_safe_iff

section Names

variable {left right : String} (first : Lexical left) (second : Lexical right)

theorem copy_chars (param : String) :
    (copyName param).toList =
      '$' :: 'c' :: ('o' :: 'p' :: 'y' :: '_' :: (Js.identifier param).toList) := by
  rw [copyName, String.toList_append]
  rfl

theorem next_chars (param : String) :
    (nextName param).toList =
      '$' :: 't' :: ('c' :: 'o' :: '_' :: (Js.identifier param).toList) := by
  rw [nextName, String.toList_append]
  rfl

include first

theorem identifier_ne_copy (right : String) : Js.identifier left ≠ copyName right :=
  Js.identifier_ne_generated first (copy_chars right) (by decide)

theorem identifier_ne_next (right : String) : Js.identifier left ≠ nextName right :=
  Js.identifier_ne_generated first (next_chars right) (by decide)

omit first in
theorem copy_ne_next (left right : String) : copyName left ≠ nextName right := by
  intro same
  have chars := congrArg String.toList same
  rw [copy_chars, next_chars] at chars
  simp at chars

include second

theorem copy_injective (same : copyName left = copyName right) : left = right := by
  have chars := congrArg String.toList same
  rw [copy_chars, copy_chars] at chars
  exact Js.identifier_injective first second (String.toList_injective (by simpa using chars))

theorem next_injective (same : nextName left = nextName right) : left = right := by
  have chars := congrArg String.toList same
  rw [next_chars, next_chars] at chars
  exact Js.identifier_injective first second (String.toList_injective (by simpa using chars))

end Names

theorem bare_name_ne_loop {name : String} (lexical : Lexical name) (module : String)
    (resolved : Option String) (param : String) :
    bareName module name resolved ≠ copyName param ∧
      bareName module name resolved ≠ nextName param := by
  have own := And.intro (identifier_ne_copy lexical param) (identifier_ne_next lexical param)
  unfold bareName
  cases resolved with
  | none => exact own
  | some target =>
    dsimp only
    split
    · exact own
    · constructor <;> intro same <;> have chars := congrArg String.toList same
      · rw [copy_chars] at chars
        exact absurd (List.cons.inj chars).1 (by decide)
      · rw [next_chars] at chars
        exact absurd (List.cons.inj chars).1 (by decide)

theorem bind_ne_loop (param : String) : bindName ≠ copyName param ∧ bindName ≠ nextName param := by
  constructor <;> intro same <;> have chars := congrArg String.toList same
  · rw [copy_chars] at chars
    exact absurd (List.cons.inj (List.cons.inj chars).2).1 (by decide)
  · rw [next_chars] at chars
    exact absurd (List.cons.inj (List.cons.inj chars).2).1 (by decide)

theorem aligned_bare_names {blocks : Bool} {module : String} {us : List Js.BareName}
    {uses : List Occurrence} (aligned : List.Forall₂ (Aligned blocks module) us uses)
    (lexical : ∀ use ∈ uses, Lexical use.name) :
    ∀ u ∈ us, ∃ name resolved, Lexical name ∧ u.text = bareName module name resolved := by
  induction aligned with
  | nil => exact fun u none => absurd none List.not_mem_nil
  | cons first others ih =>
    have both := List.forall_mem_cons.mp lexical
    exact List.forall_mem_cons.mpr ⟨⟨_, _, both.1, first.text⟩, ih both.2⟩

theorem outer_plain {blocks : Bool} {module : String} {e : Expr} (formed : e.Formed) :
    ∀ x ∈ (expr ⟨module, blocks⟩ e).outer, ∀ param,
      x.text ≠ copyName param ∧ x.text ≠ nextName param := by
  intro x member param
  obtain ⟨u, named, same⟩ := Js.Expr.outer_named [] _ x member
  rw [← same]
  by_cases chain : u.text = bindName
  · rw [chain]
    exact bind_ne_loop param
  · have outside : Stands blocks [] [] :=
      ⟨fun _ _ => rfl, fun _ _ none => absurd none List.not_mem_nil⟩
    obtain ⟨vs, perm, aligned, _⟩ := expr_matches formed outside
    have inside : u ∈ vs := perm.subset (List.mem_filter.mpr ⟨named, decide_eq_true chain⟩)
    have lexical : ∀ use ∈ e.occurrences [], Lexical use.name := fun use used =>
      (Expr.occurrences_lexical formed (fun _ none => absurd none List.not_mem_nil) use used).1
    obtain ⟨name, resolved, plain, text⟩ := aligned_bare_names aligned lexical u inside
    rw [text]
    exact bare_name_ne_loop plain module resolved param

section Tail

variable (setting : Setting) (d : ValueDeclaration)

theorem body_variables_append (front back : List Js.Statement) :
    Js.bodyVariables (front ++ back) = Js.bodyVariables front ++ Js.bodyVariables back := by
  induction front with
  | nil => rfl
  | cons s rest ih =>
    rw [List.cons_append, Js.bodyVariables, Js.bodyVariables, ih, List.append_assoc]

theorem body_variables_vars {α : Type} (names : α → String) (values : α → Js.Expr)
    (items : List α) :
    Js.bodyVariables (items.map fun item => .var (names item) (values item)) = items.map names := by
  induction items with
  | nil => rfl
  | cons item rest ih =>
    rw [List.map_cons, List.map_cons, Js.bodyVariables, ih]
    rfl

theorem body_variables_assigns {α : Type} (names : α → String) (values : α → Js.Expr)
    (items : List α) :
    Js.bodyVariables (items.map fun item => .assign (.name (names item)) (values item)) = [] := by
  induction items with
  | nil => rfl
  | cons item rest ih =>
    rw [List.map_cons, Js.bodyVariables, ih]
    rfl

theorem tail_other {e : Expr}
    (other : ∀ place condition yes no, e = .cond place condition yes no → False) :
    tail setting d e =
      match d.selfCall? setting.module e with
      | none => [.give (expr setting e)]
      | some args =>
        (d.params.zip args).map (fun arg => .var (nextName arg.1) (expr setting arg.2)) ++
        d.params.map (fun param =>
          .assign (.name (Js.identifier param)) (.name (nextName param))) ++
        [.again loopLabel] :=
  tail.eq_2 setting d e other

theorem tail_variables (e : Expr) (x : String) :
    x ∈ Js.bodyVariables (tail setting d e) ↔
      d.hasTailCall setting.module e = true ∧ ∃ param ∈ d.params, x = nextName param := by
  induction e using ValueDeclaration.hasTailCall.induct with
  | case1 place condition yes no ihYes ihNo =>
    simp only [tail, Js.bodyVariables, Js.Statement.variables, List.append_nil, List.mem_append,
      ihYes, ihNo, ValueDeclaration.hasTailCall, Bool.or_eq_true, or_and_right]
  | case2 e other =>
    rw [tail_other setting d other, ValueDeclaration.hasTailCall.eq_2 _ _ _ other]
    cases call : d.selfCall? setting.module e with
    | none => simp [Js.bodyVariables, Js.Statement.variables]
    | some args =>
      have full := (ValueDeclaration.self_call_eq call).2.2
      have names : (d.params.zip args).map (fun arg => nextName arg.1) = d.params.map nextName := by
        conv_rhs => rw [← List.map_fst_zip (Nat.le_of_eq full.symm), List.map_map]
        rfl
      simp only [body_variables_append, body_variables_vars, body_variables_assigns, names,
        Js.bodyVariables, Js.Statement.variables, List.append_nil, List.mem_map, Option.isSome_some,
        true_and]
      constructor <;> rintro ⟨param, member, rfl⟩ <;> exact ⟨param, member, rfl⟩

theorem loop_body_variables :
    Js.bodyVariables (loopBody setting d) =
      d.params.map Js.identifier ++ Js.bodyVariables (tail setting d d.body) := by
  rw [loopBody, body_variables_append, body_variables_vars Js.identifier]
  simp [Js.bodyVariables, Js.Statement.variables]

end Tail

end Emit

end PureJs
