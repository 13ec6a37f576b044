import PureJs.Proofs.Emit.SelfCalls
import Mathlib.Data.List.Forall2

/-!
The loop made of a tail-recursive declaration. Its code branches as the conditionals in tail
position do. Where the source calls the declaration, it goes round; everywhere else it returns, and
nothing that it evaluates on the way refers to the declaration.
-/

namespace PureJs

/-- The ways to the tail positions of an expression, in the order of the source. -/
def Expr.tailPaths : Expr → List (List Branch)
  | .cond _ _ yes no => yes.tailPaths.map (.yes :: ·) ++ no.tailPaths.map (.no :: ·)
  | _ => [[]]

namespace Js

/-- The ends of code that does nothing but branch before them. -/
def leaves : List Statement → List (List Statement)
  | [.branch _ yes no] => leaves yes ++ leaves no
  | code => [code]

mutual

def Statement.values : Statement → List Expr
  | .var _ value | .give value | .run value => [value]
  | .assign target value => [target, value]
  | .branch condition yes no => condition :: bodyValues yes ++ bodyValues no
  | .loop _ body => bodyValues body
  | .again _ | .verbatim _ => []

def bodyValues : List Statement → List Expr
  | [] => []
  | s :: rest => s.values ++ bodyValues rest

end

theorem mem_body_values {body : List Statement} {code : Expr} :
    code ∈ bodyValues body ↔ ∃ s ∈ body, code ∈ s.values := by
  induction body with
  | nil => simp [bodyValues]
  | cons s rest ih => simp [bodyValues, ih]

end Js

namespace Emit

def nextRound (setting : Setting) (d : ValueDeclaration) (args : List Expr) : List Js.Statement :=
  (d.params.zip args).map (fun arg => .var (nextName arg.1) (expr setting arg.2)) ++
    d.params.map (fun param => .assign (.name (Js.identifier param)) (.name (nextName param))) ++
    [.again loopLabel]

/-- What the code does at the end of the way to a tail position of the expression. -/
inductive Ends (setting : Setting) (d : ValueDeclaration) (e : Expr) (path : List Branch) :
    List Js.Statement → Prop
  | again {call head : Expr} {args : List Expr} (stands : e.at? path = some call)
    (applies : call.Applies head args) (full : args.length = d.params.length)
    (own : ∀ inner, e.RefersTo setting.module d.name (path ++ inner) ↔
      inner = List.replicate d.params.length .function) :
    Ends setting d e path (nextRound setting d args)
  | give {result : Expr} (stands : e.at? path = some result)
    (free : ∀ inner, ¬e.RefersTo setting.module d.name (path ++ inner)) :
    Ends setting d e path [.give (expr setting result)]

/-- The code is that of a part of the expression without a reference to the declaration, or a
variable of the loop. -/
def Outside (setting : Setting) (d : ValueDeclaration) (e : Expr) (code : Js.Expr) : Prop :=
  (∃ path part, e.at? path = some part ∧ code = expr setting part ∧
    ∀ inner, ¬e.RefersTo setting.module d.name (path ++ inner)) ∨
  ∃ param ∈ d.params, code = .name (Js.identifier param) ∨ code = .name (nextName param) ∨
    code = .name (copyName param)

variable {setting : Setting} {d : ValueDeclaration}

theorem refers_behind {e part : Expr} {step : Branch} (here : e.part? step = some part)
    {module name : String} {path : List Branch} :
    e.RefersTo module name (step :: path) ↔ part.RefersTo module name path := by
  rw [Expr.refers_cons_iff]
  constructor
  · rintro ⟨inner, same, refers⟩
    rw [here] at same
    cases same
    exact refers
  · exact fun refers => ⟨part, here, refers⟩

theorem Ends.behind {e part : Expr} {step : Branch} (here : e.part? step = some part)
    {path : List Branch} {code : List Js.Statement} (ends : Ends setting d part path code) :
    Ends setting d e (step :: path) code := by
  cases ends with
  | again stands applies full own =>
    refine .again (by simpa [Expr.at?, here] using stands) applies full fun inner => ?_
    rw [List.cons_append, refers_behind here]
    exact own inner
  | give stands free =>
    refine .give (by simpa [Expr.at?, here] using stands) fun inner refers => ?_
    exact free inner ((refers_behind here).mp refers)

theorem Outside.behind {e part : Expr} {step : Branch} (here : e.part? step = some part)
    {code : Js.Expr} (outside : Outside setting d part code) : Outside setting d e code := by
  rcases outside with ⟨path, inner, stands, same, free⟩ | own
  · refine .inl ⟨step :: path, inner, by simpa [Expr.at?, here] using stands, same, ?_⟩
    exact fun more refers => free more ((refers_behind here).mp refers)
  · exact .inr own

/-- Of what stands in tail position and is no conditional, the loop is either gone round, when it is
a full call, or left. -/
theorem tail_cases {e : Expr}
    (other : ∀ place condition yes no, e = .cond place condition yes no → False)
    (only : d.tailCallsOnly setting.module e = true) :
    (∃ head args, head.isValue setting.module d.name = true ∧ e.Applies head args ∧
      args.length = d.params.length ∧
      (∀ arg ∈ args, ¬arg.mentions setting.module d.name = true) ∧
      tail setting d e = nextRound setting d args) ∨
    ¬e.mentions setting.module d.name = true ∧ tail setting d e = [.give (expr setting e)] := by
  rw [ValueDeclaration.tail_calls_other other] at only
  rw [tail_other setting d other]
  cases call : d.selfCall? setting.module e with
  | some args =>
    obtain ⟨head, value, applies, full⟩ := ValueDeclaration.self_call_applies call
    have free : ∀ arg ∈ args, ¬arg.mentions setting.module d.name = true := by
      simpa [call] using only
    exact .inl ⟨head, args, value, applies, full, free, rfl⟩
  | none =>
    have silent : ¬e.mentions setting.module d.name = true := by simpa [call] using only
    exact .inr ⟨silent, rfl⟩

theorem ends_at_end {e : Expr}
    (other : ∀ place condition yes no, e = .cond place condition yes no → False)
    (only : d.tailCallsOnly setting.module e = true) :
    Ends setting d e [] (tail setting d e) := by
  rcases tail_cases other only with ⟨head, args, value, applies, full, free, same⟩ | ⟨silent, same⟩
  · rw [same]
    refine .again rfl applies full fun inner => ?_
    rw [← full]
    exact applies.refers_iff value free inner
  · rw [same]
    exact .give rfl fun inner refers => silent (Expr.mentions_iff_refers.mpr ⟨inner, refers⟩)

theorem next_round_leaves (args : List Expr) :
    Js.leaves (nextRound setting d args) = [nextRound setting d args] := by
  refine Js.leaves.eq_2 _ fun condition yes no same => ?_
  have last := congrArg List.getLast? same
  simp [nextRound] at last

theorem tail_ends {e : Expr} (only : d.tailCallsOnly setting.module e = true) :
    List.Forall₂ (Ends setting d e) e.tailPaths (Js.leaves (tail setting d e)) := by
  induction e using ValueDeclaration.hasTailCall.induct with
  | case1 place condition yes no ihYes ihNo =>
    rw [ValueDeclaration.tailCallsOnly, Bool.and_eq_true, Bool.and_eq_true] at only
    rw [Expr.tailPaths, tail, Js.leaves]
    refine List.rel_append ?_ ?_ <;> rw [List.forall₂_map_left_iff]
    · exact (ihYes only.1.2).imp fun _ _ ends => ends.behind rfl
    · exact (ihNo only.2).imp fun _ _ ends => ends.behind rfl
  | case2 e other =>
    have ends := ends_at_end other only
    have whole : Js.leaves (tail setting d e) = [tail setting d e] := by
      rcases tail_cases other only with ⟨_, args, _, _, _, _, same⟩ | ⟨_, same⟩ <;> rw [same]
      · exact next_round_leaves args
      · exact Js.leaves.eq_2 _ (by rintro _ _ _ ⟨⟩)
    rw [whole, Expr.tailPaths.eq_2 e other]
    exact .cons ends .nil

theorem free_outside {e part : Expr} {path : List Branch} (stands : e.at? path = some part)
    (silent : ¬part.mentions setting.module d.name = true) :
    Outside setting d e (expr setting part) := by
  refine .inl ⟨path, part, stands, rfl, fun inner refers => silent ?_⟩
  obtain ⟨found, here, there⟩ := Expr.refers_append_iff.mp refers
  rw [stands] at here
  cases here
  exact Expr.mentions_iff_refers.mpr ⟨inner, there⟩

theorem next_round_outside {e head : Expr} {args : List Expr} (applies : e.Applies head args)
    (free : ∀ arg ∈ args, ¬arg.mentions setting.module d.name = true) :
    ∀ code ∈ Js.bodyValues (nextRound setting d args), Outside setting d e code := by
  intro code member
  obtain ⟨s, inside, here⟩ := Js.mem_body_values.mp member
  rcases List.mem_append.mp inside with front | last
  · rcases List.mem_append.mp front with first | second
    · obtain ⟨⟨param, arg⟩, pair, rfl⟩ := List.mem_map.mp first
      obtain ⟨path, stands⟩ := applies.argument_at (List.of_mem_zip pair).2
      rw [List.mem_singleton.mp here]
      exact free_outside stands (free arg (List.of_mem_zip pair).2)
    · obtain ⟨param, listed, rfl⟩ := List.mem_map.mp second
      simp only [Js.Statement.values, List.mem_cons, List.not_mem_nil, or_false] at here
      rcases here with rfl | rfl
      · exact .inr ⟨param, listed, .inl rfl⟩
      · exact .inr ⟨param, listed, .inr (.inl rfl)⟩
  · rw [List.mem_singleton.mp last] at here
    exact absurd here List.not_mem_nil

theorem tail_outside {e : Expr} (only : d.tailCallsOnly setting.module e = true) :
    ∀ code ∈ Js.bodyValues (tail setting d e), Outside setting d e code := by
  induction e using ValueDeclaration.hasTailCall.induct with
  | case1 place condition yes no ihYes ihNo =>
    rw [ValueDeclaration.tailCallsOnly, Bool.and_eq_true, Bool.and_eq_true, Bool.not_eq_true',
      Bool.eq_false_iff] at only
    intro code member
    simp only [tail, Js.bodyValues, Js.Statement.values, List.append_nil, List.mem_cons,
      List.cons_append, List.mem_append] at member
    have test : (Expr.cond place condition yes no).at? [.condition] = some condition := rfl
    have first : (Expr.cond place condition yes no).part? .yes = some yes := rfl
    have second : (Expr.cond place condition yes no).part? .no = some no := rfl
    rcases member with rfl | left | right
    · exact free_outside test only.1.1
    · exact (ihYes only.1.2 code left).behind first
    · exact (ihNo only.2 code right).behind second
  | case2 e other =>
    rcases tail_cases other only with ⟨head, args, _, applies, _, free, same⟩ | ⟨silent, same⟩
    · rw [same]
      exact next_round_outside applies free
    · rw [same]
      intro code member
      rw [Js.mem_body_values] at member
      obtain ⟨s, inside, here⟩ := member
      rw [List.mem_singleton.mp inside] at here
      rw [List.mem_singleton.mp here]
      have whole : e.at? [] = some e := rfl
      exact free_outside whole silent

theorem loop_outside (only : d.tailCallsOnly setting.module d.body = true) :
    ∀ code ∈ Js.bodyValues (loopBody setting d), Outside setting d d.body code := by
  intro code member
  obtain ⟨s, inside, here⟩ := Js.mem_body_values.mp member
  rcases List.mem_append.mp inside with first | last
  · obtain ⟨param, listed, rfl⟩ := List.mem_map.mp first
    rw [List.mem_singleton.mp here]
    exact .inr ⟨param, listed, .inr (.inr rfl)⟩
  · rw [List.mem_singleton.mp last] at here
    exact tail_outside only code here

/-- A declaration is tail recursive when it has parameters and refers to itself, every time as the
head of a full call in tail position. Then each end of the loop's code either goes round, exactly
where such a call stands, or returns, and nothing evaluated in it refers to the declaration. -/
theorem tail_recursion_exact (setting : Setting) (d : ValueDeclaration) :
    (d.isTailRecursive setting.module = true ↔ d.params ≠ [] ∧
      (∃ path, d.body.RefersTo setting.module d.name path) ∧
      ∀ path, d.body.RefersTo setting.module d.name path → d.HeadsTailCall path) ∧
    (d.isTailRecursive setting.module = true →
      List.Forall₂ (Ends setting d d.body) d.body.tailPaths (Js.leaves (tail setting d d.body)) ∧
      ∀ code ∈ Js.bodyValues (loopBody setting d), Outside setting d d.body code) := by
  refine ⟨ValueDeclaration.is_tail_recursive_iff, fun recursive => ?_⟩
  rw [ValueDeclaration.isTailRecursive, Bool.and_eq_true, Bool.and_eq_true] at recursive
  exact ⟨tail_ends recursive.1.2, loop_outside recursive.1.2⟩

end Emit

end PureJs
