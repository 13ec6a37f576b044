import Mathlib.Algebra.Group.Int.Defs
import Mathlib.Algebra.Group.Nat.Defs
import PureJs.Program.Fold

/-!
What folding does to the meaning of expressions. The meaning of an expression is put together from
those of its parts, in any way at all, as long as the operators that folding knows do on integers,
truth values and strings what they are for. Integers may be rounded; only those of at most `2 ^ 53`
are known to stay as they are.
-/

namespace PureJs

structure Rounding where
  round : Int → Int
  exact : ∀ n, -2 ^ 53 ≤ n → n ≤ 2 ^ 53 → round n = n
  neg : ∀ n, round (-n) = -round n

inductive StatementMeaning (Meaning : Type)
  | bind (name : String) (action : Meaning)
  | define (name : String) (value : Meaning)
  | run (action : Meaning)

def Computes {Env Value Kind : Type} (embed : Kind → Value)
    (operator : (Env → Value) → (Env → Value) → Env → Value) (result : Kind → Kind → Value) :
    Prop :=
  ∀ left right env a b, left env = embed a → right env = embed b →
    operator left right env = result a b

/-- What expressions mean in environments. All that has no law is arbitrary. -/
structure Interpretation (Env Value : Type) extends Rounding where
  integer : Int → Value
  number : String → Value
  string : String → Value
  bool : Bool → Value
  array : List (Env → Value) → Env → Value
  var : String → Option String → Option String → Env → Value
  app : (Env → Value) → (Env → Value) → Env → Value
  lambda : List String → (Env → Value) → Env → Value
  cond : (Env → Value) → (Env → Value) → (Env → Value) → Env → Value
  binary : Operator → (Env → Value) → (Env → Value) → Env → Value
  negate : (Env → Value) → Env → Value
  block : List (StatementMeaning (Env → Value)) → Env → Value
  cond_bool : ∀ condition yes no env b, condition env = bool b →
    cond condition yes no env = if b then yes env else no env
  negate_integer : ∀ operand env a, operand env = integer a → negate operand env = integer (-a)
  add_integers : Computes integer (binary .add) fun a b => integer (round (a + b))
  sub_integers : Computes integer (binary .sub) fun a b => integer (round (a - b))
  mul_integers : Computes integer (binary .mul) fun a b => integer (round (a * b))
  equal_integers : Computes integer (binary .equal) fun a b => bool (a = b)
  not_equal_integers : Computes integer (binary .notEqual) fun a b => bool (a ≠ b)
  less_integers : Computes integer (binary .less) fun a b => bool (a < b)
  less_equal_integers : Computes integer (binary .lessEqual) fun a b => bool (a ≤ b)
  greater_integers : Computes integer (binary .greater) fun a b => bool (b < a)
  greater_equal_integers : Computes integer (binary .greaterEqual) fun a b => bool (b ≤ a)
  and_bools : Computes bool (binary .and) fun a b => bool (a && b)
  or_bools : Computes bool (binary .or) fun a b => bool (a || b)
  equal_bools : Computes bool (binary .equal) fun a b => bool (a = b)
  not_equal_bools : Computes bool (binary .notEqual) fun a b => bool (a ≠ b)
  append_strings : Computes string (binary .append) fun a b => string (a ++ b)

namespace Interpretation

variable {Env Value : Type} (I : Interpretation Env Value)

def literal : Literal → Value
  | .integer n => I.integer (I.round n)
  | .number text => I.number text
  | .string value => I.string value
  | .bool value => I.bool value

mutual

def eval : Expr → Env → Value
  | .literal _ value => fun _ => I.literal value
  | .array _ items => I.array (evalList items)
  | .var _ name qualifier resolved => I.var name qualifier resolved
  | .app _ function argument => I.app (eval function) (eval argument)
  | .lambda _ params body => I.lambda params (eval body)
  | .cond _ condition yes no => I.cond (eval condition) (eval yes) (eval no)
  | .binary _ op left right => I.binary op (eval left) (eval right)
  | .negate _ operand => I.negate (eval operand)
  | .block _ statements => I.block (evalStatements statements)

def evalList : List Expr → List (Env → Value)
  | [] => []
  | e :: rest => eval e :: evalList rest

def evalStatements : List Statement → List (StatementMeaning (Env → Value))
  | [] => []
  | .bind _ name e :: rest => .bind name (eval e) :: evalStatements rest
  | .define _ name e :: rest => .define name (eval e) :: evalStatements rest
  | .run _ e :: rest => .run (eval e) :: evalStatements rest

end

variable {I}

theorem round_exact {n : Int} (exact : isExact n = true) : I.round n = n := by
  rw [isExact, Bool.and_eq_true] at exact
  exact I.exact n (of_decide_eq_true exact.1) (of_decide_eq_true exact.2)

theorem eval_fold_negate (place : Position) (operand : Expr) :
    I.eval (Expr.foldNegate place operand) = I.negate (I.eval operand) := by
  unfold Expr.foldNegate
  split
  · rename_i n
    funext env
    rw [I.negate_integer _ env _ rfl, ← I.neg]
    rfl
  · rfl

theorem eval_fold_cond (place : Position) (condition yes no : Expr) :
    I.eval (Expr.foldCond place condition yes no) =
      I.cond (I.eval condition) (I.eval yes) (I.eval no) := by
  unfold Expr.foldCond
  split
  · rename_i value
    funext env
    rw [I.cond_bool _ _ _ env value rfl]
    cases value <;> rfl
  · rfl

section Fold

variable [Simplifier]

section Sound

variable (sound : Simplifier.Sound) {left right : Env → Value} {env : Env}
include sound

theorem integer_answered {term : IntTerm} {value : Literal}
    (known : (Simplifier.integer? term).map Literal.integer = some value) :
    value = .integer term.value := by
  obtain ⟨n, answer, rfl⟩ := Option.map_eq_some_iff.mp known
  rw [sound.integer answer]

theorem bool_answered {term : BoolTerm} {value : Literal}
    (known : (Simplifier.bool? term).map Literal.bool = some value) :
    value = .bool term.value := by
  obtain ⟨b, answer, rfl⟩ := Option.map_eq_some_iff.mp known
  rw [sound.bool answer]

theorem integers_combined {op : Operator} {a b : Int} {value : Literal}
    (known : op.onIntegers? a b = some value) (first : left env = I.integer a)
    (second : right env = I.integer b) : I.binary op left right env = I.literal value := by
  cases op
  case add =>
    rw [integer_answered sound known]
    exact I.add_integers left right env a b first second
  case sub =>
    rw [integer_answered sound known]
    exact I.sub_integers left right env a b first second
  case mul =>
    rw [integer_answered sound known]
    exact I.mul_integers left right env a b first second
  case equal =>
    rw [bool_answered sound known]
    exact I.equal_integers left right env a b first second
  case notEqual =>
    rw [bool_answered sound known]
    exact I.not_equal_integers left right env a b first second
  case less =>
    rw [bool_answered sound known]
    exact I.less_integers left right env a b first second
  case lessEqual =>
    rw [bool_answered sound known]
    exact I.less_equal_integers left right env a b first second
  case greater =>
    rw [bool_answered sound known]
    exact I.greater_integers left right env a b first second
  case greaterEqual =>
    rw [bool_answered sound known]
    exact I.greater_equal_integers left right env a b first second
  all_goals cases known

theorem bools_combined {op : Operator} {a b : Bool} {value : Literal}
    (known : op.onBools? a b = some value) (first : left env = I.bool a)
    (second : right env = I.bool b) : I.binary op left right env = I.literal value := by
  cases op
  case and =>
    rw [bool_answered sound known]
    exact I.and_bools left right env a b first second
  case or =>
    rw [bool_answered sound known]
    exact I.or_bools left right env a b first second
  case equal =>
    rw [bool_answered sound known]
    exact I.equal_bools left right env a b first second
  case notEqual =>
    rw [bool_answered sound known]
    exact I.not_equal_bools left right env a b first second
  all_goals cases known

theorem literals_combined {op : Operator} {a b value : Literal}
    (known : a.combine? op b = some value) (first : left env = I.literal a)
    (second : right env = I.literal b) : I.binary op left right env = I.literal value := by
  unfold Literal.combine? at known
  split at known
  · rename_i a b
    split at known
    · rename_i exact
      rw [Bool.and_eq_true] at exact
      obtain ⟨result, _⟩ := Option.filter_eq_some_iff.mp known
      refine integers_combined sound result (first.trans ?_) (second.trans ?_)
      · rw [literal, round_exact exact.1]
      · rw [literal, round_exact exact.2]
    · cases known
  · exact bools_combined sound known first second
  · split at known
    · rename_i append
      cases known
      subst append
      exact I.append_strings left right env _ _ first second
    · cases known
  · cases known

theorem eval_fold_binary (place : Position) (op : Operator) (left right : Expr) :
    I.eval (Expr.foldBinary place op left right) = I.binary op (I.eval left) (I.eval right) := by
  unfold Expr.foldBinary
  split
  · split
    · rename_i value known
      funext env
      symm
      show _ = I.literal value
      exact literals_combined sound known rfl rfl
    · rfl
  · rfl

end Sound

mutual

theorem eval_fold (sound : Simplifier.Sound) (e : Expr) : I.eval e.fold = I.eval e := by
  cases e with
  | literal place value => rfl
  | array place items => simp only [Expr.fold, eval, eval_fold_list sound items]
  | var place name qualifier resolved => rfl
  | app place function argument =>
    simp only [Expr.fold, eval, eval_fold sound function, eval_fold sound argument]
  | lambda place params body => simp only [Expr.fold, eval, eval_fold sound body]
  | cond place condition yes no =>
    rw [Expr.fold, eval_fold_cond, eval, eval_fold sound condition, eval_fold sound yes,
      eval_fold sound no]
  | binary place op left right =>
    rw [Expr.fold, eval_fold_binary sound, eval, eval_fold sound left, eval_fold sound right]
  | negate place operand => rw [Expr.fold, eval_fold_negate, eval, eval_fold sound operand]
  | block place statements => simp only [Expr.fold, eval, eval_fold_statements sound statements]

theorem eval_fold_list (sound : Simplifier.Sound) (items : List Expr) :
    I.evalList (Expr.foldList items) = I.evalList items := by
  cases items with
  | nil => rfl
  | cons e rest => simp only [Expr.foldList, evalList, eval_fold sound e, eval_fold_list sound rest]

theorem eval_fold_statements (sound : Simplifier.Sound) (statements : List Statement) :
    I.evalStatements (Expr.foldStatements statements) = I.evalStatements statements := by
  match statements with
  | [] => rfl
  | .bind _ _ e :: rest | .define _ _ e :: rest | .run _ e :: rest =>
    simp only [Expr.foldStatements, evalStatements, eval_fold sound e,
      eval_fold_statements sound rest]

end

end Fold

/-- Whatever expressions mean, a folded expression means what it meant before, as long as no answer
of the simplifier is wrong. -/
theorem fold_keeps_meaning [Simplifier] (sound : Simplifier.Sound) (I : Interpretation Env Value)
    (e : Expr) (env : Env) : I.eval e.fold env = I.eval e env :=
  congrFun (eval_fold sound e) env

end Interpretation

def nearestDouble (n : Nat) : Nat :=
  if n ≤ 2 ^ 53 then n
  else
    let unit := 2 ^ (Nat.log2 n - 52)
    let down := n / unit
    let rest := n % unit
    (if unit < 2 * rest ∨ unit = 2 * rest ∧ down % 2 = 1 then down + 1 else down) * unit

def Rounding.doubles : Rounding where
  round n := n.sign * nearestDouble n.natAbs
  exact n low high := by
    have small : n.natAbs ≤ 2 ^ 53 := by omega
    rw [nearestDouble, if_pos small]
    exact Int.sign_mul_natAbs n
  neg n := by rw [Int.sign_neg, Int.natAbs_neg, Int.neg_mul]

inductive SimpleValue
  | integer (n : Int)
  | string (text : String)
  | bool (b : Bool)
  | other
  deriving DecidableEq

namespace SimpleValue

def binary (op : Operator) : SimpleValue → SimpleValue → SimpleValue
  | integer a, integer b =>
    match op with
    | .add => integer (Rounding.doubles.round (a + b))
    | .sub => integer (Rounding.doubles.round (a - b))
    | .mul => integer (Rounding.doubles.round (a * b))
    | .equal => bool (a = b)
    | .notEqual => bool (a ≠ b)
    | .less => bool (a < b)
    | .lessEqual => bool (a ≤ b)
    | .greater => bool (b < a)
    | .greaterEqual => bool (b ≤ a)
    | _ => other
  | bool a, bool b =>
    match op with
    | .and => bool (a && b)
    | .or => bool (a || b)
    | .equal => bool (a = b)
    | .notEqual => bool (a ≠ b)
    | _ => other
  | string a, string b => if op = .append then string (a ++ b) else other
  | _, _ => other

theorem binary_computes {Env Kind : Type} {embed : Kind → SimpleValue} {op : Operator}
    {result : Kind → Kind → SimpleValue}
    (same : ∀ a b, binary op (embed a) (embed b) = result a b) :
    Computes embed (fun left right (env : Env) => binary op (left env) (right env)) result := by
  intro left right env a b first second
  dsimp only
  rw [first, second, same]

end SimpleValue

def Interpretation.doubles : Interpretation (String → SimpleValue) SimpleValue where
  toRounding := Rounding.doubles
  integer := .integer
  number _ := .other
  string := .string
  bool := .bool
  array _ _ := .other
  var name _ _ env := env name
  app _ _ _ := .other
  lambda _ _ _ := .other
  cond condition yes no env :=
    match condition env with
    | .bool b => if b then yes env else no env
    | _ => .other
  binary op left right env := SimpleValue.binary op (left env) (right env)
  negate operand env :=
    match operand env with
    | .integer n => .integer (-n)
    | _ => .other
  block _ _ := .other
  cond_bool _ _ _ _ _ same := by rw [same]
  negate_integer _ _ _ same := by rw [same]
  add_integers := SimpleValue.binary_computes fun _ _ => rfl
  sub_integers := SimpleValue.binary_computes fun _ _ => rfl
  mul_integers := SimpleValue.binary_computes fun _ _ => rfl
  equal_integers := SimpleValue.binary_computes fun _ _ => rfl
  not_equal_integers := SimpleValue.binary_computes fun _ _ => rfl
  less_integers := SimpleValue.binary_computes fun _ _ => rfl
  less_equal_integers := SimpleValue.binary_computes fun _ _ => rfl
  greater_integers := SimpleValue.binary_computes fun _ _ => rfl
  greater_equal_integers := SimpleValue.binary_computes fun _ _ => rfl
  and_bools := SimpleValue.binary_computes fun _ _ => rfl
  or_bools := SimpleValue.binary_computes fun _ _ => rfl
  equal_bools := SimpleValue.binary_computes fun _ _ => rfl
  not_equal_bools := SimpleValue.binary_computes fun _ _ => rfl
  append_strings := SimpleValue.binary_computes fun _ _ => rfl

def beyondDoubles : Expr :=
  .binary ⟨1, 3⟩ .sub (.literal ⟨1, 1⟩ (.integer (2 ^ 53 + 1)))
    (.literal ⟨1, 5⟩ (.integer (2 ^ 53)))

theorem beyond_doubles_kept :
    Simplifier.Sound ∧ beyondDoubles.fold = beyondDoubles ∧
      ∀ env, Interpretation.doubles.eval beyondDoubles.fold env =
          Interpretation.doubles.eval beyondDoubles env ∧
        Interpretation.doubles.eval beyondDoubles env = .integer 0 :=
  ⟨Simplifier.values_exact.sound, rfl, fun env =>
    ⟨Interpretation.fold_keeps_meaning Simplifier.values_exact.sound Interpretation.doubles
      beyondDoubles env, rfl⟩⟩

end PureJs
