import PureJs.Proofs.Js.OwnCells

/-!
Code changes no cell that is there when it starts, but for the variables of the function that it is
in. What a condition leaves behind when it is decided is therefore out of reach, and states that
were alike before it are so again.
-/

namespace PureJs.Js

variable {P N W : Type} {α β : Type}

/-- Later on all cells are as they were, except variables of a function. -/
structure Kept (own : Env) (s s' : State P N W) : Prop where
  size : s.cells.length ≤ s'.cells.length
  cells : ∀ a < s.cells.length, (∀ x, own x ≠ some a) → s'.cells[a]? = s.cells[a]?

theorem Kept.refl (own : Env) (s : State P N W) : Kept own s s := ⟨Nat.le_refl _, fun _ _ _ => rfl⟩

theorem Kept.trans {own : Env} {s s' s'' : State P N W} (one : Kept own s s')
    (two : Kept own s' s'') : Kept own s s'' :=
  ⟨Nat.le_trans one.size two.size, fun a old other =>
    (two.cells a (Nat.lt_of_lt_of_le old one.size) other).trans (one.cells a old other)⟩

theorem Kept.widen {s s' : State P N W} (kept : Kept Env.empty s s') (own : Env) : Kept own s s' :=
  ⟨kept.size, fun a old _ => kept.cells a old fun _ none => nomatch none⟩

def Keeps (own : Env) (s : State P N W) (run : Run P N W α) : Prop :=
  ∀ v s', run = some (v, s') → Kept own s s'

section Keeps

variable {own : Env} {s : State P N W}

theorem Keeps.none : Keeps own s (none : Run P N W α) := fun _ _ same => nomatch same

theorem Keeps.pure (v : α) : Keeps own s (some (v, s)) := by
  intro _ _ same
  cases same
  exact Kept.refl own s

theorem Keeps.andThen {run : Run P N W α} {next : α → State P N W → Run P N W β}
    (first : Keeps own s run) (second : ∀ v s', Keeps own s' (next v s')) :
    Keeps own s (run.andThen next) := by
  match run, first with
  | .none, _ => exact Keeps.none
  | some (v, s'), first =>
    exact fun w s'' last => (first v s' rfl).trans (second v s' w s'' last)

theorem Keeps.widen {run : Run P N W α} (keeps : Keeps Env.empty s run) (own : Env) :
    Keeps own s run := fun v s' same => (keeps v s' same).widen own

theorem Keeps.map {γ : Type} (value : Option γ) (result : γ → α) :
    Keeps own s (value.map fun v => (result v, s)) := by
  cases value with
  | none => exact Keeps.none
  | some v => exact Keeps.pure _

theorem Keeps.bind {γ : Type} (value : Option γ) {run : γ → Run P N W α}
    (each : ∀ v, Keeps own s (run v)) : Keeps own s (value.bind run) := by
  cases value with
  | none => exact Keeps.none
  | some v => exact each v

theorem Keeps.set (x : String) (value : Value P N) : Keeps own s (s.set own x value) := by
  unfold State.set
  cases target : own x with
  | none => exact Keeps.none
  | some b =>
    intro _ _ same
    cases same
    refine ⟨by simp, fun a _ other => List.getElem?_set_ne ?_⟩
    rintro rfl
    exact other x target

end Keeps

structure KeepsLevel (l : Level P N W) : Prop where
  call : ∀ f args s, Keeps Env.empty s (l.call f args s)
  loop : ∀ own outer label body s, Keeps own s (l.loop own outer label body s)

section Eval

variable (c : Context P N W) {l : Level P N W}

mutual

theorem eval_keeps (tame : KeepsLevel l) (env : Env) (e : Expr) (s : State P N W) :
    Keeps Env.empty s (e.eval c l env s) := by
  match e with
  | .integer _ | .number _ | .string _ | .bool _ | .function _ _ =>
    rw [Expr.eval]
    exact Keeps.pure _
  | .array items =>
    rw [Expr.eval]
    exact (list_eval_keeps tame env items s).andThen fun _ _ => Keeps.pure _
  | .name text =>
    rw [Expr.eval]
    exact Keeps.map _ id
  | .property object _ | .entry object _ =>
    rw [Expr.eval]
    exact (eval_keeps tame env object s).andThen fun _ _ => Keeps.map _ id
  | .call callee args =>
    rw [Expr.eval]
    exact (eval_keeps tame env callee s).andThen fun function s' =>
      (list_eval_keeps tame env args s').andThen fun values s'' => tame.call function values s''
  | .paren inner =>
    rw [Expr.eval]
    exact eval_keeps tame env inner s
  | .cond condition yes no =>
    rw [Expr.eval]
    refine (eval_keeps tame env condition s).andThen fun value s' => ?_
    split
    · exact eval_keeps tame env yes s'
    · exact eval_keeps tame env no s'
  | .binary op left right =>
    rw [Expr.eval]
    refine (eval_keeps tame env left s).andThen fun first s' => ?_
    split
    · exact Keeps.pure _
    · refine (eval_keeps tame env right s').andThen fun second s'' => ?_
      split
      · exact Keeps.pure _
      · exact Keeps.bind _ fun a => Keeps.bind _ fun b => Keeps.map _ Value.prim
  | .negate operand =>
    rw [Expr.eval]
    exact (eval_keeps tame env operand s).andThen fun value s' =>
      Keeps.bind _ fun a => Keeps.map _ Value.prim
  | .object properties =>
    rw [Expr.eval]
    exact (properties_eval_keeps tame env properties s).andThen fun _ _ => Keeps.pure _
  | .hole =>
    rw [Expr.eval]
    exact Keeps.none

theorem list_eval_keeps (tame : KeepsLevel l) (env : Env) (items : List Expr) (s : State P N W) :
    Keeps Env.empty s (listEval c l env items s) := by
  match items with
  | [] =>
    rw [listEval]
    exact Keeps.pure _
  | e :: rest =>
    rw [listEval]
    exact (eval_keeps tame env e s).andThen fun _ s' =>
      (list_eval_keeps tame env rest s').andThen fun _ _ => Keeps.pure _

theorem properties_eval_keeps (tame : KeepsLevel l) (env : Env) (properties : List (String × Expr))
    (s : State P N W) :
    Keeps Env.empty s (propertiesEval c l env properties s) := by
  match properties with
  | [] =>
    rw [propertiesEval]
    exact Keeps.pure _
  | (key, e) :: rest =>
    rw [propertiesEval]
    exact (eval_keeps tame env e s).andThen fun _ s' =>
      (properties_eval_keeps tame env rest s').andThen fun _ _ => Keeps.pure _

end

mutual

theorem exec_keeps (tame : KeepsLevel l) (own outer : Env) (statement : Statement)
    (s : State P N W) :
    Keeps own s (statement.exec c l own outer s) := by
  match statement with
  | .var name value | .assign (.name name) value =>
    simp only [Statement.exec]
    exact ((eval_keeps c tame _ value s).widen own).andThen fun v _ => Keeps.set name v
  | .assign (.integer _) _ | .assign (.number _) _ | .assign (.string _) _ | .assign (.bool _) _
  | .assign (.array _) _ | .assign (.property ..) _ | .assign (.entry ..) _ | .assign (.call ..) _
  | .assign (.paren _) _ | .assign (.cond ..) _ | .assign (.binary ..) _ | .assign (.negate _) _
  | .assign (.function ..) _ | .assign (.object _) _ | .assign .hole _ | .verbatim _ =>
    exact Keeps.none
  | .give value | .run value =>
    simp only [Statement.exec]
    exact ((eval_keeps c tame _ value s).widen own).andThen fun _ _ => Keeps.pure _
  | .branch condition yes no =>
    simp only [Statement.exec]
    refine ((eval_keeps c tame _ condition s).widen own).andThen fun _ s' => ?_
    split
    · exact body_keeps tame own outer yes s'
    · exact body_keeps tame own outer no s'
  | .loop label body =>
    simp only [Statement.exec]
    refine (body_keeps tame own outer body s).andThen fun outcome s' => ?_
    cases outcome with
    | passed => exact tame.loop own outer label body s'
    | given value => exact Keeps.pure _
    | again other =>
      simp only [loopRound]
      split
      · exact tame.loop own outer label body s'
      · exact Keeps.pure _
  | .again label =>
    simp only [Statement.exec]
    exact Keeps.pure _

theorem body_keeps (tame : KeepsLevel l) (own outer : Env) (body : List Statement)
    (s : State P N W) :
    Keeps own s (bodyExec c l own outer body s) := by
  match body with
  | [] =>
    simp only [bodyExec]
    exact Keeps.pure _
  | statement :: rest =>
    simp only [bodyExec]
    refine (exec_keeps tame own outer statement s).andThen fun outcome s' => ?_
    cases outcome with
    | passed => exact body_keeps tame own outer rest s'
    | given value => exact Keeps.pure _
    | again label => exact Keeps.pure _

end

theorem next_keeps_level (tame : KeepsLevel l) : KeepsLevel (l.next c) where
  loop own outer label body s := exec_keeps c tame own outer (.loop label body) s
  call f args s := by
    match f with
    | .undefined | .prim _ | .array _ | .object _ => exact Keeps.none
    | .native function =>
      simp only [Level.next]
      cases args.mapM Value.prim? with
      | none => exact Keeps.none
      | some data =>
        intro _ _ same
        obtain ⟨result, _, equal⟩ := Option.map_eq_some_iff.mp same
        cases equal
        exact ⟨Nat.le_refl _, fun _ _ _ => rfl⟩
    | .closure params body env =>
      have inner : Keeps (ownVariables params body s.cells.length) (s.enter params body args)
          ((bodyExec c l (ownVariables params body s.cells.length) env body
            (s.enter params body args)).andThen callResult) := by
        refine (body_keeps c tame _ env body _).andThen fun outcome s' => ?_
        cases outcome with
        | passed => exact Keeps.pure _
        | given value => exact Keeps.pure _
        | again label => exact Keeps.none
      intro v s' last
      have kept := inner v s' last
      have longer : s.cells.length ≤ (s.enter params body args).cells.length := by
        simp [State.enter]
      refine ⟨Nat.le_trans longer kept.size, fun a old _ => ?_⟩
      rw [kept.cells a (Nat.lt_of_lt_of_le old longer), enter_eq_extend, State.extend_old old]
      intro x here
      have := (frame_inside here).2.1
      omega

end Eval

theorem level_keeps (c : Context P N W) (depth : Nat) : KeepsLevel (level c depth) := by
  induction depth with
  | zero => exact ⟨fun _ _ _ => Keeps.none, fun _ _ _ _ _ => Keeps.none⟩
  | succ depth ih => exact next_keeps_level c ih

theorem Good.kept {r : Likeness P N} {k : Link} {s t s' t' : State P N W} (good : Good r k s t)
    (left : Kept Env.empty s s') (right : Kept Env.empty t t') (world : s'.world = t'.world) :
    Moves nobody k s t k s' t' ∧ Good r k s' t' := by
  have first : ∀ a < s.cells.length, s'.cells[a]? = s.cells[a]? := fun a old =>
    left.cells a old fun _ none => nomatch none
  have second : ∀ b < t.cells.length, t'.cells[b]? = t.cells[b]? := fun b old =>
    right.cells b old fun _ none => nomatch none
  constructor
  · exact { Moves.refl nobody k s t with
      leftSize := left.size
      rightSize := right.size
      leftKept := fun a old _ => first a old
      rightKept := fun b old _ _ => second b old }
  · exact { good with
      world := world
      shared := by
        intro a b pair
        rw [first a (good.shared_old pair).1, second b (good.shared_old pair).2]
        exact good.shared pair
      frozen := by
        intro a b pair
        rw [first a (good.frozen_old pair).1, second b (good.frozen_old pair).2]
        exact good.frozen pair }

end PureJs.Js
